import Elementary.Proofs.Source.Layout

/-!
# Nested blocks

A source text is written by commands: a line, the beginning of a block behind its header, and the
end of the innermost block that is open. When every block that is begun is ended, the commands are
those of a row of blocks, each of which contains lines and blocks again. The text is then read off
the blocks: every line is indented by four blanks for each block around it, and a block is its
header with the opening brace, its lines one level deeper, and the closing brace on a line of its
own.

## Main definitions

* `Command`, `run`: what is done to a text.
* `isWellNested`: every block that is begun is ended, and no other.
* `Blocks`: lines and blocks one after the other.
* `Blocks.rows`: the lines of blocks, each with its depth.

## Main results

* `exists_blocks`: well-nested commands are those of some blocks.
* `Blocks.run_commands`: what blocks add to a text.
* `run_wellNested`: the text that well-nested commands write.
-/

namespace Elementary.Source

/-- Characters that can **stand on a line**: some, no break among them, and no blank at the end. -/
structure IsLine (s : List Char) : Prop where
  ne_nil : s ≠ []
  no_break : '\n' ∉ s
  last_ne : s.getLast? ≠ some ' '

instance (s : List Char) : Decidable (IsLine s) :=
  decidable_of_iff (s ≠ [] ∧ '\n' ∉ s ∧ s.getLast? ≠ some ' ')
    ⟨fun h => ⟨h.1, h.2.1, h.2.2⟩, fun h => ⟨h.1, h.2, h.3⟩⟩

/-- The **header of a block**: whole lines, and what stands in front of the opening brace. -/
structure Header where
  lines : List String
  last : String

/-- The text of a header. -/
def Header.text (h : Header) : String := String.join (h.lines.map (· ++ "\n")) ++ h.last

/-- What is **done to a source text**. -/
inductive Command where
  /-- A line is added. -/
  | line (s : String)
  /-- A header is added, and its block begun. -/
  | openBlock (header : Header)
  /-- The innermost block is ended. -/
  | closeBlock

/-- A command **adds lines**: its line is one, and so is each whole line of its header. -/
def Command.IsValid : Command → Prop
  | line s => IsLine s.toList
  | openBlock h => (∀ l ∈ h.lines, IsLine l.toList) ∧ '\n' ∉ h.last.toList
  | closeBlock => True

instance (c : Command) : Decidable c.IsValid :=
  match c with
  | .line s => inferInstanceAs (Decidable (IsLine s.toList))
  | .openBlock h => inferInstanceAs
    (Decidable ((∀ l ∈ h.lines, IsLine l.toList) ∧ '\n' ∉ h.last.toList))
  | .closeBlock => inferInstanceAs (Decidable True)

/-- A buffer **after a command**, if it has a block to end. -/
def Command.apply (b : Buffer) : Command → Option Buffer
  | line s => some (b.add (s ++ "\n"))
  | openBlock h => some ((b.add h.text).openBlock Buffer.defaultHeader)
  | closeBlock => b.closeBlock? Buffer.defaultFooter "\n"

/-- A buffer **after some commands**. -/
def run (b : Buffer) (cs : List Command) : Option Buffer := cs.foldlM Command.apply b

/-- Whether commands that are given inside of `depth` blocks **end these and those that they
begin**, and no other. -/
def isWellNested : (depth : Nat) → List Command → Bool
  | depth, [] => depth == 0
  | depth, .line _ :: cs => isWellNested depth cs
  | depth, .openBlock _ :: cs => isWellNested (depth + 1) cs
  | 0, .closeBlock :: _ => false
  | depth + 1, .closeBlock :: cs => isWellNested depth cs

/-! ### Blocks -/

/-- **Lines and blocks** one after the other, the lines and blocks inside of a block among them. -/
inductive Blocks where
  | empty
  | line (s : String) (rest : Blocks)
  | block (header : Header) (inner rest : Blocks)

/-- A **line of a text**, and how many blocks are around it. -/
structure Row where
  depth : Nat
  content : List Char

/-- The characters of a row: **four blanks for each block** around it, its own, and a break. -/
def Row.characters (r : Row) : List Char :=
  List.replicate (4 * r.depth) ' ' ++ r.content ++ ['\n']

/-- The rows of a header: its lines, the last of which goes on with the **opening brace**. -/
def Header.rows (depth : Nat) (h : Header) : List Row :=
  (h.lines.map fun l => ⟨depth, l.toList⟩) ++ [⟨depth, h.last.toList ++ ['\x7b']⟩]

namespace Blocks

/-- The **commands** that write blocks. -/
def commands : Blocks → List Command
  | empty => []
  | line s rest => .line s :: rest.commands
  | block header inner rest => .openBlock header :: (inner.commands ++ .closeBlock :: rest.commands)

/-- The **rows** of blocks: those inside of a block are one level deeper than its header and its
closing brace. -/
def rows (depth : Nat) : Blocks → List Row
  | empty => []
  | line s rest => ⟨depth, s.toList⟩ :: rest.rows depth
  | block header inner rest =>
    header.rows depth ++ (inner.rows (depth + 1) ++ ⟨depth, ['\x7d']⟩ :: rest.rows depth)

end Blocks

variable {cs : List Command} {depth level : Nat} {b : Buffer} {text : List Char} {scopes : Scopes}

/-- **Well-nested commands are those of blocks**: inside of `depth` blocks, those of some blocks,
and then as often the end of a block and those of the blocks behind it. -/
theorem exists_blocks (h : isWellNested depth cs = true) :
    ∃ (first : Blocks) (outer : List Blocks), outer.length = depth ∧
      cs = first.commands ++ outer.flatMap fun blocks => .closeBlock :: blocks.commands := by
  induction cs generalizing depth with
  | nil =>
    obtain rfl : depth = 0 := beq_iff_eq.mp h
    exact ⟨.empty, [], rfl, rfl⟩
  | cons c cs ih =>
    cases c with
    | line s =>
      obtain ⟨first, outer, hlength, rfl⟩ := ih h
      exact ⟨.line s first, outer, hlength, rfl⟩
    | openBlock header =>
      obtain ⟨inner, outer, hlength, rfl⟩ := ih h
      obtain ⟨rest, outer, rfl⟩ := List.exists_cons_of_length_eq_add_one hlength
      refine ⟨.block header inner rest, outer, Nat.succ.inj hlength, ?_⟩
      simp [Blocks.commands]
    | closeBlock =>
      cases depth with
      | zero => cases h
      | succ depth =>
        obtain ⟨first, outer, hlength, rfl⟩ := ih h
        exact ⟨.empty, first :: outer, congrArg Nat.succ hlength, rfl⟩

/-! ### Headers -/

theorem toList_header (h : Header) :
    h.text.toList = (h.lines.flatMap fun l => l.toList ++ ['\n']) ++ h.last.toList := by
  rw [Header.text, String.toList_append, String.toList_join, List.flatMap_map]
  simp [String.toList_append]

/-- A line behind its indentation is no line to be shortened. -/
theorem dropTrailingBlanks_indented {l : List Char} (hl : IsLine l) :
    dropTrailingBlanks (indentation level ++ l ++ ['\n']) = indentation level ++ l ++ ['\n'] := by
  refine dropTrailingBlanks_break ?_ ?_
  · rw [List.mem_append, not_or]
    exact ⟨not_break_mem_indentation _, hl.no_break⟩
  · rw [List.getLast?_append_of_ne_nil _ hl.ne_nil]
    exact hl.last_ne

/-- **Lines behind the first one** get their indentation, and nothing is dropped. -/
theorem dropTrailingBlanks_indentLines {lines : List String} {last : List Char}
    (hlines : ∀ l ∈ lines, IsLine l.toList) (hlast : '\n' ∉ last) :
    dropTrailingBlanks (indentation level ++ indentLines (indentation level)
        ((lines.flatMap fun l => l.toList ++ ['\n']) ++ last)) =
      (lines.flatMap fun l => indentation level ++ l.toList ++ ['\n']) ++
        (indentation level ++ last) := by
  induction lines with
  | nil =>
    rw [List.flatMap_nil, List.nil_append, List.flatMap_nil, List.nil_append,
      indentLines_eq_self _ hlast, dropTrailingBlanks_eq_self]
    rw [List.mem_append, not_or]
    exact ⟨not_break_mem_indentation _, hlast⟩
  | cons l lines ih =>
    rw [List.forall_mem_cons] at hlines
    have hbreak : indentLines (indentation level)
          (((l :: lines).flatMap fun l => l.toList ++ ['\n']) ++ last) =
        l.toList ++ '\n' :: (indentation level ++ indentLines (indentation level)
          ((lines.flatMap fun l => l.toList ++ ['\n']) ++ last)) := by
      rw [List.flatMap_cons, List.append_assoc, List.append_assoc, indentLines_append,
        indentLines_eq_self _ hlines.1.no_break, List.singleton_append, indentLines, if_pos rfl]
    rw [hbreak, ← List.append_assoc, dropTrailingBlanks_append_break,
      dropTrailingBlanks_indented hlines.1, ih hlines.2, List.flatMap_cons]
    simp only [List.append_assoc]

/-- The rows of a text one after the other. -/
def characters (rows : List Row) : List Char := rows.flatMap Row.characters

theorem characters_append (rows rows' : List Row) :
    characters (rows ++ rows') = characters rows ++ characters rows' := List.flatMap_append

/-- **A header and its brace** behind the indentation of their level are the rows of the header. -/
theorem characters_header {h : Header} (hvalid : (Command.openBlock h).IsValid) :
    indentation level ++ reindent level h.text.toList ++ "\x7b\n".toList =
      characters (h.rows level) := by
  have hrows : characters (h.rows level) =
      (h.lines.flatMap fun l => indentation level ++ l.toList ++ ['\n']) ++
        (indentation level ++ h.last.toList) ++ "\x7b\n".toList := by
    rw [Header.rows, characters_append, characters, List.flatMap_map]
    simp [characters, Row.characters, indentation]
  have hreindent : indentation level ++ reindent level h.text.toList =
      (h.lines.flatMap fun l => indentation level ++ l.toList ++ ['\n']) ++
        (indentation level ++ h.last.toList) := by
    rw [toList_header, reindent]
    obtain ⟨hlines, hlast⟩ := hvalid
    cases hcases : h.lines with
    | nil =>
      rw [List.flatMap_nil, List.nil_append, List.flatMap_nil, List.nil_append,
        indentLines_eq_self _ hlast, dropTrailingBlanks_eq_self hlast]
    | cons l lines =>
      rw [hcases, List.forall_mem_cons] at hlines
      rw [List.flatMap_cons, List.append_assoc, List.append_assoc, indentLines_append,
        indentLines_eq_self _ hlines.1.no_break, List.singleton_append, indentLines, if_pos rfl,
        dropTrailingBlanks_append_break, dropTrailingBlanks_break hlines.1.no_break hlines.1.last_ne,
        dropTrailingBlanks_indentLines hlines.2 hlast, List.flatMap_cons]
      simp only [List.append_assoc]
  rw [hrows, hreindent]

/-! ### Texts of blocks -/

theorem run_append (b : Buffer) (cs cs' : List Command) :
    run b (cs ++ cs') = (run b cs).bind fun b => run b cs' := List.foldlM_append

/-- **Blocks are added** to a text as their rows, and leave its level and its scopes. -/
theorem Blocks.run_commands {blocks : Blocks} (hvalid : ∀ c ∈ blocks.commands, c.IsValid)
    (hb : b.Holds text level scopes) :
    ∃ b', run b blocks.commands = some b' ∧
      b'.Holds (text ++ characters (blocks.rows level)) level scopes := by
  induction blocks generalizing b text level scopes with
  | empty => exact ⟨b, rfl, hb.congr (List.append_nil text).symm⟩
  | line s rest ih =>
    rw [commands, List.forall_mem_cons] at hvalid
    obtain ⟨b', hrun, hb'⟩ := ih hvalid.2 (hb.add_line s)
    refine ⟨b', hrun, hb'.congr ?_⟩
    rw [line_eq_self hvalid.1.no_break hvalid.1.last_ne]
    simp [rows, characters, Row.characters, indentation]
  | block header inner rest ihInner ihRest =>
    rw [commands, List.forall_mem_cons, List.forall_mem_append, List.forall_mem_cons] at hvalid
    obtain ⟨hheader, hinner, -, hrest⟩ := hvalid
    -- the header, the blocks inside, the closing brace, and the blocks behind it
    obtain ⟨b₁, hrun₁, hb₁⟩ := ihInner hinner (hb.openBlock header.text)
    obtain ⟨b₂, hclose, hb₂⟩ := hb₁.closeBlock
    obtain ⟨b₃, hrun₂, hb₃⟩ := ihRest hrest hb₂
    refine ⟨b₃, ?_, hb₃.congr ?_⟩
    · rw [commands, run, List.foldlM_cons]
      change run _ (inner.commands ++ .closeBlock :: rest.commands) = _
      rw [run_append, hrun₁]
      change (b₁.closeBlock? Buffer.defaultFooter "\n").bind (run · rest.commands) = _
      rw [hclose]
      exact hrun₂
    · rw [characters_header hheader, rows, characters_append, characters_append]
      simp [characters, Row.characters, indentation]

/-! ### Lines of blocks -/

/-- **Every row of valid blocks is a line.** -/
theorem Blocks.isLine_rows {blocks : Blocks} (hvalid : ∀ c ∈ blocks.commands, c.IsValid) :
    ∀ r ∈ blocks.rows depth, IsLine r.content := by
  induction blocks generalizing depth with
  | empty => exact List.forall_mem_nil _
  | line s rest ih =>
    rw [commands, List.forall_mem_cons] at hvalid
    exact List.forall_mem_cons.mpr ⟨hvalid.1, ih hvalid.2⟩
  | block header inner rest ihInner ihRest =>
    rw [commands, List.forall_mem_cons, List.forall_mem_append, List.forall_mem_cons] at hvalid
    obtain ⟨⟨hlines, hlast⟩, hinner, -, hrest⟩ := hvalid
    rw [rows, Header.rows, List.forall_mem_append, List.forall_mem_append, List.forall_mem_append,
      List.forall_mem_singleton, List.forall_mem_cons, List.forall_mem_map]
    have hbrace : IsLine ['\x7d'] := by decide
    have hopening : IsLine (header.last.toList ++ ['\x7b']) := ⟨by simp, by simpa using hlast, by simp⟩
    exact ⟨⟨hlines, hopening⟩, ihInner hinner, hbrace, ihRest hrest⟩

/-- A blank in front of a break is the last character of a line, or stands behind the line. -/
theorem getLast?_of_blank_break {l rest : List Char} (hl : '\n' ∉ l)
    (h : [' ', '\n'] <:+: l ++ '\n' :: rest) :
    l.getLast? = some ' ' ∨ [' ', '\n'] <:+: rest := by
  induction l with
  | nil =>
    rcases List.infix_cons_iff.mp h with hhead | hrest
    · exact absurd (List.cons_prefix_cons.mp hhead).1 (by decide)
    · exact .inr hrest
  | cons c l ih =>
    rw [List.mem_cons, not_or] at hl
    rw [List.cons_append] at h
    rcases List.infix_cons_iff.mp h with hhead | hrest
    · obtain ⟨rfl, hbreak⟩ := List.cons_prefix_cons.mp hhead
      cases l with
      | nil => exact .inl rfl
      | cons d l => exact absurd (List.cons_prefix_cons.mp hbreak).1 (by simp_all)
    · refine (ih hl.2 hrest).imp_left fun hlast => ?_
      rw [List.getLast?_cons, hlast]
      rfl

/-- A text of lines **has no blank in front of a break**. -/
theorem not_blank_break {rows : List Row} (hrows : ∀ r ∈ rows, IsLine r.content) :
    ¬ [' ', '\n'] <:+: characters rows := by
  induction rows with
  | nil => exact fun h => absurd (List.infix_nil.mp h) (by decide)
  | cons r rows ih =>
    rw [List.forall_mem_cons] at hrows
    obtain ⟨hr, hrows⟩ := hrows
    have hsplit : characters (r :: rows) =
        (List.replicate (4 * r.depth) ' ' ++ r.content) ++ '\n' :: characters rows := by
      simp [characters, Row.characters]
    intro h
    rw [hsplit] at h
    refine (getLast?_of_blank_break ?_ h).elim (fun hlast => ?_) (ih hrows)
    · rw [List.mem_append, not_or]
      exact ⟨fun h => absurd (List.eq_of_mem_replicate h) (by decide), hr.no_break⟩
    · rw [List.getLast?_append_of_ne_nil _ hr.ne_nil] at hlast
      exact hr.last_ne hlast

/-- A text of rows **ends in front of the first column** of a line. -/
theorem characters_ends (rows : List Row) :
    characters rows = [] ∨ (characters rows).getLast? = some '\n' := by
  rcases List.eq_nil_or_concat rows with rfl | ⟨init, r, rfl⟩
  · exact .inl rfl
  · refine .inr ?_
    rw [List.concat_eq_append, characters_append]
    simp [characters, Row.characters]

/-- **Well-nested commands write their blocks.** Commands that end every block that they begin are
those of some blocks. They can be given from the empty text on, and the text is then that of the rows
of these blocks: each line stands behind four blanks for every block around it, the lines of a block
stand between its header with the opening brace and a line of the same depth with the closing brace,
no line ends with a blank, and the text ends with the last line. -/
theorem run_wellNested (hnested : isWellNested 0 cs = true) (hvalid : ∀ c ∈ cs, c.IsValid) :
    ∃ (blocks : Blocks) (b : Buffer), cs = blocks.commands ∧ run Buffer.empty cs = some b ∧
      b.text.toList = characters (blocks.rows 0) ∧
      (∀ r ∈ blocks.rows 0, IsLine r.content) ∧
      ¬ [' ', '\n'] <:+: b.text.toList ∧
      (b.text.toList = [] ∨ b.text.toList.getLast? = some '\n') ∧
      b.level = 0 ∧ b.scopes = Buffer.empty.scopes := by
  obtain ⟨blocks, outer, houter, rfl⟩ := exists_blocks hnested
  obtain rfl := List.eq_nil_of_length_eq_zero houter
  rw [List.flatMap_nil, List.append_nil] at hvalid ⊢
  obtain ⟨b, hrun, hb⟩ := blocks.run_commands hvalid Buffer.holds_empty
  have htext : b.text.toList = characters (blocks.rows 0) := hb.text_eq
  have hlines : ∀ r ∈ blocks.rows 0, IsLine r.content := blocks.isLine_rows hvalid
  exact ⟨blocks, b, rfl, hrun, htext, hlines, htext ▸ not_blank_break hlines,
    htext ▸ characters_ends _, hb.level_eq, hb.scopes_eq⟩

/-- A function with a loop without lines in it, whose header has a line of its own, and a block
behind it that has no header. -/
def loopCommands : List Command :=
  [.openBlock ⟨["int f(void)"], ""⟩, .line "int i;", .openBlock ⟨[], "for (i = 0; i < 9; ++i) "⟩,
    .closeBlock, .closeBlock, .openBlock ⟨[], ""⟩, .closeBlock, .line "/* end */"]

/-- Blocks in blocks, without lines, and ended one after the other. -/
theorem run_wellNested_loop : ∃ (blocks : Blocks) (b : Buffer), loopCommands = blocks.commands ∧
    run Buffer.empty loopCommands = some b ∧ b.text.toList = characters (blocks.rows 0) ∧
    b.text = "int f(void)\n\x7b\n    int i;\n    for (i = 0; i < 9; ++i) \x7b\n    \x7d\n\x7d\n" ++
      "\x7b\n\x7d\n/* end */\n" := by
  have hvalid : ∀ c ∈ loopCommands, c.IsValid := by decide
  obtain ⟨blocks, b, hcommands, hrun, htext, -⟩ := run_wellNested (by decide) hvalid
  have hwritten : (run Buffer.empty loopCommands).map Buffer.text = some
      ("int f(void)\n\x7b\n    int i;\n    for (i = 0; i < 9; ++i) \x7b\n    \x7d\n\x7d\n" ++
        "\x7b\n\x7d\n/* end */\n") := by
    decide +kernel
  rw [hrun] at hwritten
  exact ⟨blocks, b, hcommands, hrun, htext, Option.some.inj hwritten⟩

end Elementary.Source
