import Elementary.Source.Buffer
import Mathlib.Data.List.Basic

/-!
# The layout of source texts

After a line break a source text ends with the indentation of the next line, which the end of a
block takes back again. So a text between two lines is what was written so far and one indentation
of its level. A line, the beginning of a block and its end each take such a text to such a text, and
a block leaves the level and the scopes as they were before it.

## Main definitions

* `line`: a line as it stands in a text.
* `Buffer.Holds`: a text between two lines.

## Main results

* `Buffer.Holds.add_line`, `Buffer.Holds.openBlock`, `Buffer.Holds.closeBlock`: lines and blocks.
* `line_eq_self`: a line without breaks and blanks at its end stands in a text as it is.
-/

namespace Elementary.Source

variable {s : List Char} {level : Nat}

/-! ### Lines -/

/-- A **line as it stands** at a level, the break at its end included; a break within it is followed
by an indentation, and blanks before a break are dropped. -/
def line (level : Nat) (s : List Char) : List Char :=
  dropTrailingBlanks (indentLines (indentation level) s ++ ['\n'])

theorem indentLines_append (blanks s t : List Char) :
    indentLines blanks (s ++ t) = indentLines blanks s ++ indentLines blanks t := by
  induction s with
  | nil => rfl
  | cons c s ih =>
    rw [List.cons_append, indentLines, indentLines, ih]
    split
    · rw [List.cons_append, List.append_assoc]
    · rfl

theorem indentLines_eq_self (blanks : List Char) (h : '\n' ∉ s) : indentLines blanks s = s := by
  induction s with
  | nil => rfl
  | cons c s ih =>
    rw [List.mem_cons, not_or] at h
    rw [indentLines, if_neg (Ne.symm h.1), ih h.2]

/-- A blank is dropped when what is left behind it begins with a break. -/
theorem dropTrailingBlanks_cons (c : Char) (s : List Char) :
    dropTrailingBlanks (c :: s) =
      if c = ' ' ∧ (dropTrailingBlanks s).head? = some '\n' then dropTrailingBlanks s
      else c :: dropTrailingBlanks s := by
  rw [dropTrailingBlanks.eq_def]
  dsimp only
  split
  · next hrest => rw [if_pos ⟨rfl, by rw [hrest]; rfl⟩, hrest]
  · next hother =>
    rw [if_neg]
    rintro ⟨rfl, hhead⟩
    obtain ⟨rest, hrest⟩ := List.head?_eq_some_iff.mp hhead
    exact hother rest rfl hrest

theorem dropTrailingBlanks_break_ne_nil (s : List Char) :
    dropTrailingBlanks (s ++ ['\n']) ≠ [] := by
  induction s with
  | nil => decide
  | cons c s ih =>
    rw [List.cons_append, dropTrailingBlanks_cons]
    split
    · exact ih
    · exact List.cons_ne_nil _ _

/-- What follows a line break has **no part in the blanks before it**. -/
theorem dropTrailingBlanks_append_break (s t : List Char) :
    dropTrailingBlanks (s ++ '\n' :: t) =
      dropTrailingBlanks (s ++ ['\n']) ++ dropTrailingBlanks t := by
  induction s with
  | nil => rfl
  | cons c s ih =>
    have hhead : (dropTrailingBlanks (s ++ '\n' :: t)).head? =
        (dropTrailingBlanks (s ++ ['\n'])).head? := by
      rw [ih, List.head?_append_of_ne_nil _ (dropTrailingBlanks_break_ne_nil s)]
    rw [List.cons_append, List.cons_append, dropTrailingBlanks_cons, dropTrailingBlanks_cons, hhead]
    split
    · exact ih
    · rw [ih, List.cons_append]

/-- Blanks without a break behind them stay. -/
theorem dropTrailingBlanks_eq_self (h : '\n' ∉ s) : dropTrailingBlanks s = s := by
  induction s with
  | nil => rfl
  | cons c s ih =>
    rw [List.mem_cons, not_or] at h
    rw [dropTrailingBlanks_cons, ih h.2, if_neg]
    rintro ⟨-, hhead⟩
    exact h.2 (List.mem_of_mem_head? hhead)

/-- A break stays when no blank stands before it. -/
theorem dropTrailingBlanks_break (h : '\n' ∉ s) (hlast : s.getLast? ≠ some ' ') :
    dropTrailingBlanks (s ++ ['\n']) = s ++ ['\n'] := by
  induction s with
  | nil => rfl
  | cons c s ih =>
    rw [List.mem_cons, not_or] at h
    cases s with
    | nil =>
      rw [List.cons_append, dropTrailingBlanks_cons, if_neg]
      · rfl
      · rintro ⟨rfl, -⟩
        exact hlast rfl
    | cons d s =>
      rw [List.getLast?_cons_cons] at hlast
      rw [List.cons_append, dropTrailingBlanks_cons, ih h.2 hlast, if_neg]
      rintro ⟨-, hhead⟩
      exact h.2 (by simp_all)

/-- **A line without breaks** and without blanks at its end stands in a text as it is. -/
theorem line_eq_self (h : '\n' ∉ s) (hlast : s.getLast? ≠ some ' ') :
    line level s = s ++ ['\n'] := by
  rw [line, indentLines_eq_self _ h, dropTrailingBlanks_break h hlast]

@[simp] theorem indentation_zero : indentation 0 = [] := rfl

theorem indentation_succ (level : Nat) :
    indentation (level + 1 : Nat) = indentation level ++ tab := by
  rw [indentation, indentation, tab, ← List.replicate_add]
  congr 1

theorem not_break_mem_indentation (level : Int) : '\n' ∉ indentation level := by
  intro h
  exact absurd (List.eq_of_mem_replicate h) (by decide)

/-- A line and its break are **brought to a level** as the line as it stands and the indentation of
the next one. -/
theorem reindent_line (level : Nat) (s : List Char) :
    reindent level (s ++ ['\n']) = line level s ++ indentation level := by
  rw [reindent, indentLines_append, indentLines, if_pos rfl, indentLines, List.append_nil,
    dropTrailingBlanks_append_break, dropTrailingBlanks_eq_self (not_break_mem_indentation _), line]

/-! ### Texts between two lines -/

namespace Buffer

variable {b : Buffer} {text : List Char} {scopes : Scopes} {names : List String}

/-- A buffer **holds a text** at a level when it ends with this text and the indentation of the next
line. -/
structure Holds (b : Buffer) (text : List Char) (level : Nat) (scopes : Scopes) : Prop where
  reversed_eq : b.reversed = (text ++ indentation level).reverse
  level_eq : b.level = level
  scopes_eq : b.scopes = scopes

theorem holds_empty : empty.Holds [] 0 [[]] := ⟨rfl, rfl, rfl⟩

theorem Holds.congr {text' : List Char} (h : b.Holds text level scopes) (htext : text = text') :
    b.Holds text' level scopes := htext ▸ h

/-- At the outermost level, the text is what is held. -/
theorem Holds.text_eq (h : b.Holds text 0 scopes) : b.text.toList = text := by
  rw [Buffer.text, String.toList_ofList, h.reversed_eq, List.reverse_reverse]
  exact List.append_nil text

theorem reversed_add (b : Buffer) (s : String) :
    (b.add s).reversed = (reindent b.level s.toList).reverse ++ b.reversed :=
  List.reverseAux_eq

/-- **A line** is put behind the indentation that waits for it. -/
theorem Holds.add_line (h : b.Holds text level scopes) (s : String) :
    (b.add (s ++ "\n")).Holds (text ++ (indentation level ++ line level s.toList)) level
      scopes := by
  refine ⟨?_, h.level_eq, h.scopes_eq⟩
  have hbreak : (s ++ "\n").toList = s.toList ++ ['\n'] := String.toList_append
  rw [reversed_add, h.reversed_eq, h.level_eq, hbreak, reindent_line, ← List.reverse_append,
    List.append_assoc, List.append_assoc, List.append_assoc]

/-- At the outermost level, **any text** is put behind the one that is held. -/
theorem Holds.add (h : b.Holds text 0 scopes) (s : String) :
    (b.add s).Holds (text ++ reindent 0 s.toList) 0 scopes := by
  refine ⟨?_, h.level_eq, h.scopes_eq⟩
  rw [reversed_add, h.reversed_eq, h.level_eq, ← List.reverse_append]
  simp

/-- Texts of a list, one after the other. -/
theorem Holds.foldl_add {α : Type} (h : b.Holds text 0 scopes) (g : α → String) (as : List α) :
    (as.foldl (fun b a => b.add (g a)) b).Holds
      (text ++ as.flatMap fun a => reindent 0 (g a).toList) 0 scopes := by
  induction as generalizing b text with
  | nil => simpa using h
  | cons a as ih =>
    rw [List.foldl_cons, List.flatMap_cons, ← List.append_assoc]
    exact ih (h.add (g a))

/-- **A block begins** with what stands before its brace, and its lines are one level deeper. -/
theorem Holds.openBlock (h : b.Holds text level scopes) (s : String) :
    ((b.add s).openBlock defaultHeader).Holds
      (text ++ (indentation level ++ reindent level s.toList ++ "\x7b\n".toList)) (level + 1)
      ([] :: scopes) := by
  have hheader : reindent level defaultHeader.toList = "\x7b\n".toList ++ indentation level :=
    reindent_line level ['\x7b']
  refine ⟨?_, ?_, ?_⟩
  · change tab ++ ((b.add s).add defaultHeader).reversed = _
    have htab : tab = tab.reverse := rfl
    rw [reversed_add, reversed_add]
    change tab ++ ((reindent b.level defaultHeader.toList).reverse ++ _) = _
    rw [h.level_eq, hheader, h.reversed_eq, htab, indentation_succ]
    simp only [List.reverse_append, List.append_assoc]
  · change b.level + 1 = _
    rw [h.level_eq]
    rfl
  · change [] :: b.scopes = _
    rw [h.scopes_eq]

/-- **A block ends** with its footer on a line of its own, one level back; the scope of the block is
closed. -/
theorem Holds.closeBlock (h : b.Holds text (level + 1) (names :: scopes)) :
    ∃ b', b.closeBlock? defaultFooter "\n" = some b' ∧
      b'.Holds (text ++ (indentation level ++ "\x7d\n".toList)) level scopes := by
  have hdedent : { b.dedent with scopes := scopes }.Holds text level scopes := by
    refine ⟨?_, ?_, rfl⟩
    · have hreversed : b.reversed = tab ++ (text ++ indentation level).reverse := by
        rw [h.reversed_eq, indentation_succ, ← List.append_assoc, List.reverse_append]
        rfl
      change (if tab.isPrefixOf b.reversed then b.reversed.drop tab.length else b.reversed) = _
      rw [hreversed, if_pos (List.isPrefixOf_iff_prefix.mpr (List.prefix_append _ _)),
        List.drop_left]
    · change b.level - 1 = _
      rw [h.level_eq]
      omega
  refine ⟨_, by rw [closeBlock?, h.scopes_eq], ?_⟩
  have hfooter : line level ['\x7d'] = "\x7d\n".toList := line_eq_self (by decide) (by decide)
  rw [← hfooter]
  exact hdedent.add_line "\x7d"

/-- Changing what is declared leaves the text. -/
theorem Holds.with_scopes (h : b.Holds text level scopes) (scopes' : Scopes) :
    { b with scopes := scopes' }.Holds text level scopes' :=
  ⟨h.reversed_eq, h.level_eq, rfl⟩

end Buffer

end Elementary.Source
