import Elementary.Expr.Description
import Elementary.Proofs.Expr.Basic
import Elementary.Proofs.Number.Literal
import Elementary.Proofs.Text.Hexadecimal

/-!
# Descriptions identify trees

A description has one line for each operation of a tree: marks for its depth, its name, and its
attribute. The marks and the name end where the next part begins, since no name holds a character
that begins one, so a line gives back the depth, the name and the attribute. The depths of the
operations in order give back the shape of the tree, whatever the numbers of operands are.

## Main definitions

* `Op.IsDescribable`: the operations that are known by their name and attribute.
* `Expr.withoutFormats`: a tree with the formats of its variables forgotten.
* `Expr.outline`: the operations of a tree in order, each with its depth.

## Main results

* `Op.withoutFormat_eq_of_label`: a label gives back the operation.
* `Expr.outline_injective`: an outline gives back the tree.
* `Expr.description_identifies`: a description gives back the tree.
-/

namespace Elementary

/-! ### Attributes -/

theorem Text.hexMarked_injective : Function.Injective hexMarked := by
  intro m n h
  have hdigits : ∀ k : Int, (hexMarked k).toList =
      (if k < 0 then ['-', '0', 'x'] else ['0', 'x']) ++ (hex k.natAbs).toList := by
    intro k
    rw [hexMarked, String.toList_append]
    split <;> rfl
  have hlist := congrArg String.toList h
  rw [hdigits, hdigits] at hlist
  have habs : ∀ cs : List Char, cs ++ (hex m.natAbs).toList = cs ++ (hex n.natAbs).toList →
      m.natAbs = n.natAbs := by
    intro cs hcs
    rw [← hexDigits_hex m.natAbs, List.append_cancel_left hcs, hexDigits_hex]
  by_cases hm : m < 0 <;> by_cases hn : n < 0
  · rw [if_pos hm, if_pos hn] at hlist
    have := habs _ hlist
    omega
  · rw [if_pos hm, if_neg hn] at hlist
    cases hlist
  · rw [if_neg hm, if_pos hn] at hlist
    cases hlist
  · rw [if_neg hm, if_neg hn] at hlist
    have := habs _ hlist
    omega

theorem Literal.toString_int_injective : Function.Injective (toString : Int → String) := by
  intro m n h
  have hsign : ∀ k : Int,
      sign (toString k).toList = (decide (k < 0), Nat.toDigits 10 k.natAbs) := by
    intro k
    rw [toList_toString_int]
    exact sign_append _ (by simpa using head?_toDigits_append k.natAbs [])
  have hparts := (hsign m).symm.trans ((congrArg (sign ·.toList) h).trans (hsign n))
  obtain ⟨hnegative, hdigits⟩ := Prod.mk.inj hparts
  have habs : m.natAbs = n.natAbs := by
    rw [← Text.natOfDigits_toDigits m.natAbs, hdigits, Text.natOfDigits_toDigits]
  rw [← signed_natAbs m, hnegative, habs, signed_natAbs]

theorem Relation.symbol_injective : Function.Injective symbol := by
  intro r s h
  have hread : ∀ r : Relation, ofSymbol? r.symbol = some r := by
    intro r
    cases r <;> rfl
  exact Option.some.inj ((hread r).symm.trans ((congrArg ofSymbol? h).trans (hread s)))

/-- Texts between the same marks. -/
theorem between_inj {a b s t : String} (h : a ++ s ++ b = a ++ t ++ b) : s = t :=
  (String.append_right_inj a).mp ((String.append_left_inj b).mp h)

namespace Op

variable {op op' : Op}

theorem formatText_injective : Function.Injective formatText := by
  have hread : ∀ f : ResultFormat, ResultFormat.ofName? f.name = some f := by
    rintro (_ | _ | _) <;> rfl
  have hnone : ∀ f : ResultFormat, f.name ≠ "None" := by
    rintro (_ | _ | _) <;> decide
  rintro (_ | f) (_ | g) h
  · rfl
  · exact absurd h.symm (hnone g)
  · exact absurd h (hnone f)
  · exact (hread f).symm.trans ((congrArg ResultFormat.ofName? h).trans (hread g))

/-! ### Labels -/

/-- The characters that **end a line, mark its level, or begin an attribute**. -/
def markCharacters : List Char := ['\n', '|', '(', '[']

/-- A name that holds **no character that begins another part** of a line. -/
def isPlainName (s : String) : Bool := s.toList.all (· ∉ markCharacters)

/-- The names of the operations that are known by more than their name, in order. -/
def libraryNames : List String :=
  ["Constant", "MathConstant", "BitPattern", "Variable", "FromBits", "Splat", "Conversion",
    "Negation", "Abs", "NearestInteger", "Floor", "IsOdd", "ExponentInsertion",
    "ExponentExtraction", "MantissaExtraction", "Addition", "Subtraction", "Multiplication",
    "Division", "FusedMultiplyAdd", "Comparison", "Select", "MathFunction", "FunctionCall", "Tuple",
    "TupleSelection", "Assignment", "Return", "Statement"]

/-- The operations that are **known by their label**. A constant is not: a number may be written
in several ways that look alike. The names in an operation end no line; one that is known by its
name alone has a name of its own, without the characters that mark the parts of a line. -/
def IsDescribable : Op → Prop
  | constant _ => False
  | mathConstant name | var name _ | mathFunction name | functionCall name => '\n' ∉ name.toList
  | custom name => isPlainName name = true ∧ name ∉ libraryNames
  | _ => True

instance : DecidablePred IsDescribable
  | constant _ => inferInstanceAs (Decidable False)
  | mathConstant name | var name _ | mathFunction name | functionCall name =>
    inferInstanceAs (Decidable ('\n' ∉ name.toList))
  | custom name => inferInstanceAs (Decidable (isPlainName name = true ∧ name ∉ libraryNames))
  | bitPattern _ | fromBits _ | splat _ | conversion _ | negation | absolute | nearestInteger
  | floor | isOdd | exponentInsertion | exponentExtraction | mantissaExtraction | addition
  | subtraction | multiplication | division | fusedMultiplyAdd | comparison _ | select | tuple
  | tupleSelection _ | assignment | result | statement => inferInstanceAs (Decidable True)

/-- The operation with the format of a variable **forgotten**. -/
def withoutFormat : Op → Op
  | var name _ => var name none
  | op => op

/-- The name tells which of the library's operations it is. -/
theorem idxOf_name (h : ∀ s, op ≠ custom s) : libraryNames.idxOf op.name = op.ctorIdx := by
  cases op <;> first | rfl | exact absurd rfl (h _)

theorem name_mem_libraryNames (h : ∀ s, op ≠ custom s) : op.name ∈ libraryNames := by
  cases op <;> first | exact List.mem_of_elem_eq_true rfl | exact absurd rfl (h _)

/-- A name that is none of the library's is the name of **one operation only**. -/
theorem eq_custom_of_name {s : String} (hs : s ∉ libraryNames) (h : op.name = s) :
    op = custom s := by
  by_cases hcustom : ∃ t, op = custom t
  · obtain ⟨t, rfl⟩ := hcustom
    rw [← h, name]
  · exact absurd (h ▸ name_mem_libraryNames fun t ht => hcustom ⟨t, ht⟩) hs

/-- A name holds **no character that begins another part** of the line. -/
theorem not_mem_markCharacters (h : op.IsDescribable) :
    ∀ c ∈ op.name.toList, c ∉ markCharacters := by
  have hplain : isPlainName op.name = true := by
    by_cases hcustom : ∃ s, op = custom s
    · obtain ⟨s, rfl⟩ := hcustom
      exact h.1
    · have hlibrary : ∀ s ∈ libraryNames, isPlainName s = true := by decide
      exact hlibrary _ (name_mem_libraryNames fun s hs => hcustom ⟨s, hs⟩)
  intro c hc
  exact of_decide_eq_true (List.all_eq_true.mp hplain c hc)

/-- An attribute begins with **an opening mark**, if there is one. -/
theorem head?_attributeText (op : Op) :
    ∀ c ∈ op.attributeText.toList.head?, c ∈ ['(', '['] := by
  have hmark : ∀ s t u : String, s.toList.head? ∈ [some '(', some '['] →
      ∀ c ∈ (s ++ t ++ u).toList.head?, c ∈ ['(', '['] := by
    intro s t u hs c hc
    rw [String.append_assoc, String.toList_append] at hc
    cases hlist : s.toList with
    | nil => simp [hlist] at hs
    | cons d ds =>
      rw [hlist] at hs hc
      cases hc
      simpa using hs
  cases op with
  | constant _ | mathConstant _ | bitPattern _ | var _ _ | comparison _ | mathFunction _
  | functionCall _ | fromBits _ | splat _ | conversion _ | tupleSelection _ =>
    rw [attributeText]
    exact hmark _ _ _ (by decide)
  | _ => exact fun _ hc => nomatch hc

/-- The name is the part of a label **before the first such mark**. -/
theorem takeWhile_label (h : op.IsDescribable) :
    op.label.toList.takeWhile (· ∉ markCharacters) = op.name.toList := by
  have hname : ∀ c ∈ op.name.toList, decide (c ∉ markCharacters) = true := fun c hc =>
    decide_eq_true (not_mem_markCharacters h c hc)
  have hattribute : op.attributeText.toList.takeWhile (· ∉ markCharacters) = [] := by
    have hhead := head?_attributeText op
    cases hlist : op.attributeText.toList with
    | nil => rfl
    | cons c cs =>
      have hmark : ∀ c ∈ ['(', '['], c ∈ markCharacters := by simp [markCharacters]
      exact List.takeWhile_cons_of_neg (by simpa using hmark c (hhead c (by rw [hlist]; rfl)))
  rw [label, String.toList_append, List.takeWhile_append_of_pos hname, hattribute, List.append_nil]

/-- **A label** gives back the name and the attribute. -/
theorem label_inj (h : op.IsDescribable) (h' : op'.IsDescribable) (hlabel : op.label = op'.label) :
    op.name = op'.name ∧ op.attributeText = op'.attributeText := by
  have hname : op.name = op'.name := by
    rw [← String.toList_inj, ← takeWhile_label h, ← takeWhile_label h', hlabel]
  refine ⟨hname, ?_⟩
  rw [label, label, hname] at hlabel
  exact (String.append_right_inj _).mp hlabel

/-- A label is **on one line**. -/
theorem newline_not_mem_label (h : op.IsDescribable) : '\n' ∉ op.label.toList := by
  have hbetween : ∀ s t u : String, '\n' ∉ s.toList → '\n' ∉ t.toList → '\n' ∉ u.toList →
      '\n' ∉ (s ++ t ++ u).toList := by
    intro s t u hs ht hu
    simp [String.toList_append, hs, ht, hu]
  rw [label, String.toList_append, List.mem_append, not_or]
  refine ⟨fun hmem => not_mem_markCharacters h _ hmem (by decide), ?_⟩
  cases op with
  | constant _ => cases h
  | mathConstant _ | var _ _ | mathFunction _ | functionCall _ =>
    exact hbetween _ _ _ (by decide) h (by decide)
  | bitPattern coding =>
    refine hbetween _ _ _ (by decide) ?_ (by decide)
    have hhex : '\n' ∉ (Text.hex coding.natAbs).toList := fun hmem =>
      absurd (Text.isHexDigit_of_mem_hex hmem) (by decide)
    rw [Text.hexMarked, String.toList_append, List.mem_append, not_or]
    exact ⟨by split <;> decide, hhex⟩
  | fromBits f | splat f | conversion f =>
    have hformat : ∀ f, '\n' ∉ (formatText f).toList := by
      rintro (_ | _ | _ | _) <;> decide
    exact hbetween _ _ _ (by decide) (hformat f) (by decide)
  | comparison r =>
    exact hbetween _ _ _ (by decide) (by cases r <;> decide) (by decide)
  | tupleSelection index =>
    refine hbetween _ _ _ (by decide) ?_ (by decide)
    rw [Literal.toList_toString_int, List.mem_append, not_or]
    refine ⟨by cases decide (index < 0) <;> decide, fun hmem => ?_⟩
    exact absurd (Nat.isDigit_of_mem_toDigits (by decide) (by decide) hmem) (by decide)
  | _ => exact List.not_mem_nil

/-- A label does not begin like **the mark of a level**. -/
theorem head?_label_ne (h : op.IsDescribable) : op.label.toList.head? ≠ some '|' := by
  intro hhead
  rw [label, String.toList_append] at hhead
  cases hname : op.name.toList with
  | nil =>
    rw [hname, List.nil_append] at hhead
    exact absurd (head?_attributeText op '|' hhead) (by decide)
  | cons c cs =>
    rw [hname] at hhead
    cases hhead
    exact not_mem_markCharacters h '|' (by rw [hname]; exact List.mem_cons_self) (by decide)

/-- An operation without an attribute is the only one of its name. -/
theorem eq_of_ofName? (h : ∀ s, op ≠ custom s) (hname : ofName? op.name = some op') : op = op' := by
  cases op <;> first | exact Option.some.inj hname | cases hname | exact absurd rfl (h _)

/-- **A label gives back the operation**, but for the format of a variable. -/
theorem withoutFormat_eq_of_label (h : op.IsDescribable) (h' : op'.IsDescribable)
    (hlabel : op.label = op'.label) : op.withoutFormat = op'.withoutFormat := by
  obtain ⟨hname, htext⟩ := label_inj h h' hlabel
  by_cases hcustom : ∃ s, op = custom s
  · obtain ⟨s, rfl⟩ := hcustom
    rw [eq_custom_of_name h.2 hname.symm]
  by_cases hcustom' : ∃ s, op' = custom s
  · obtain ⟨s, rfl⟩ := hcustom'
    rw [eq_custom_of_name h'.2 hname]
  rw [not_exists] at hcustom hcustom'
  have hidx : op'.ctorIdx = op.ctorIdx := by
    rw [← idxOf_name hcustom, ← idxOf_name hcustom', hname]
  -- the other operation is made in the same way, and the texts give back what it is made of
  cases op with
  | constant _ => cases h
  | mathConstant name =>
    refine Op.mathConstant.elim op' hidx (fun name' htext => ?_) htext
    rw [between_inj htext]
  | bitPattern coding =>
    refine Op.bitPattern.elim op' hidx (fun coding' htext => ?_) htext
    rw [Text.hexMarked_injective (between_inj htext)]
  | var name f =>
    refine Op.var.elim op' hidx (fun name' f' htext => ?_) htext
    rw [withoutFormat, withoutFormat, between_inj htext]
  | fromBits f =>
    refine Op.fromBits.elim op' hidx (fun f' htext => ?_) htext
    rw [formatText_injective (between_inj htext)]
  | splat f =>
    refine Op.splat.elim op' hidx (fun f' htext => ?_) htext
    rw [formatText_injective (between_inj htext)]
  | conversion f =>
    refine Op.conversion.elim op' hidx (fun f' htext => ?_) htext
    rw [formatText_injective (between_inj htext)]
  | comparison r =>
    refine Op.comparison.elim op' hidx (fun r' htext => ?_) htext
    rw [Relation.symbol_injective (between_inj htext)]
  | mathFunction name =>
    refine Op.mathFunction.elim op' hidx (fun name' htext => ?_) htext
    rw [between_inj htext]
  | functionCall name =>
    refine Op.functionCall.elim op' hidx (fun name' htext => ?_) htext
    rw [between_inj htext]
  | tupleSelection index =>
    refine Op.tupleSelection.elim op' hidx (fun index' htext => ?_) htext
    rw [Literal.toString_int_injective (between_inj htext)]
  | custom s => exact absurd rfl (hcustom s)
  | _ => rw [eq_of_ofName? hcustom' ((congrArg ofName? hname.symm).trans rfl)]

/-- The format of a variable is not shown. -/
theorem label_withoutFormat (op : Op) : op.withoutFormat.label = op.label := by
  cases op <;> rfl

end Op

namespace Expr

/-! ### Outlines -/

mutual

/-- The operations of a tree in order, **each with its depth**. -/
def outline (level : Nat) : Expr → List (Nat × Op)
  | node op es => (level, op) :: outlineAll (level + 1) es

/-- The outlines of a list of trees, one after the other. -/
def outlineAll (level : Nat) : List Expr → List (Nat × Op)
  | [] => []
  | e :: es => outline level e ++ outlineAll level es

end

variable {level : Nat} {e e' : Expr} {es es' : List Expr} {rest rest' : List (Nat × Op)}

/-- What follows the operations of a depth begins **no deeper**. -/
def BeginsAbove (level : Nat) (lines : List (Nat × Op)) : Prop :=
  ∀ line ∈ lines.head?, line.1 < level

theorem BeginsAbove.outlineAll_append (h : BeginsAbove level rest) :
    BeginsAbove (level + 1) (outlineAll level es ++ rest) := by
  intro line hline
  rcases es with _ | ⟨⟨op, es⟩, _⟩
  · exact (h line hline).trans (Nat.lt_succ_self level)
  · cases hline
    exact Nat.lt_succ_self level

/-- The outline of a list of trees gives back the list when **each tree's outline** does. -/
theorem outlineAll_append_inj
    (ih : ∀ e ∈ es, ∀ e' rest rest', BeginsAbove (level + 1) rest → BeginsAbove (level + 1) rest' →
      outline level e ++ rest = outline level e' ++ rest' → e = e' ∧ rest = rest')
    (hrest : BeginsAbove level rest) (hrest' : BeginsAbove level rest')
    (h : outlineAll level es ++ rest = outlineAll level es' ++ rest') :
    es = es' ∧ rest = rest' := by
  induction es generalizing es' with
  | nil =>
    rcases es' with _ | ⟨⟨op, _⟩, _⟩
    · exact ⟨rfl, h⟩
    · -- the rest would begin with a tree of this depth
      obtain rfl : rest = _ := h
      exact absurd (hrest _ rfl) (Nat.lt_irrefl level)
  | cons e es ihs =>
    rcases es' with _ | ⟨e', es'⟩
    · obtain ⟨op, _⟩ := e
      obtain rfl : rest' = _ := h.symm
      exact absurd (hrest' _ rfl) (Nat.lt_irrefl level)
    · rw [outlineAll, outlineAll, List.append_assoc, List.append_assoc] at h
      obtain ⟨rfl, hes⟩ := ih e List.mem_cons_self e' _ _ hrest.outlineAll_append
        hrest'.outlineAll_append h
      obtain ⟨rfl, hlast⟩ := ihs (fun a ha => ih a (List.mem_cons_of_mem e ha)) hes
      exact ⟨rfl, hlast⟩

/-- The outline of a tree gives back the tree, **whatever follows** that begins no deeper. -/
theorem outline_append_inj (hrest : BeginsAbove (level + 1) rest)
    (hrest' : BeginsAbove (level + 1) rest')
    (h : outline level e ++ rest = outline level e' ++ rest') : e = e' ∧ rest = rest' := by
  induction e generalizing level e' rest rest' with
  | node op es ih =>
    obtain ⟨op', es'⟩ := e'
    obtain ⟨hline, hall⟩ := List.cons.inj h
    obtain ⟨-, rfl⟩ := Prod.mk.inj hline
    obtain ⟨rfl, hlast⟩ := outlineAll_append_inj
      (fun a ha e' rest rest' hrest hrest' h => ih a ha hrest hrest' h) hrest hrest' hall
    exact ⟨rfl, hlast⟩

/-- **An outline gives back the tree.** -/
theorem outline_injective (level : Nat) : Function.Injective (outline level) := by
  intro e e' h
  have hnil : BeginsAbove (level + 1) [] := fun _ hline => nomatch hline
  refine (outline_append_inj hnil hnil ?_).1
  rw [List.append_nil, List.append_nil, h]

theorem outlineAll_eq_flatMap (level : Nat) (es : List Expr) :
    outlineAll level es = es.flatMap (outline level) := by
  induction es with
  | nil => rfl
  | cons e es ih => rw [outlineAll, ih, List.flatMap_cons]

/-- The operations of an outline are those of the tree. -/
theorem exists_subterm_of_mem_outline {line : Nat × Op} (h : line ∈ outline level e) :
    ∃ a ∈ e.subterms, line.2 = a.op := by
  induction e generalizing level with
  | node op es ih =>
    rw [outline, outlineAll_eq_flatMap] at h
    rcases List.mem_cons.mp h with rfl | h
    · exact ⟨_, self_mem_subterms _, rfl⟩
    · obtain ⟨e, he, h⟩ := List.mem_flatMap.mp h
      obtain ⟨a, ha, hop⟩ := ih e he h
      exact ⟨a, mem_subterms_of_mem he ha, hop⟩

/-! ### Lines -/

/-- The marks of a level, as characters. -/
theorem toList_indentation (level : Nat) :
    (indentation level).toList = (List.replicate level ['|', ' ']).flatten := by
  rw [indentation, String.toList_join, List.flatMap_def, List.map_replicate]
  rfl

/-- **A level** is read off its marks, when no further mark follows. -/
theorem indentation_append_inj {level level' : Nat} {cs cs' : List Char}
    (hcs : cs.head? ≠ some '|') (hcs' : cs'.head? ≠ some '|')
    (h : (indentation level).toList ++ cs = (indentation level').toList ++ cs') :
    level = level' ∧ cs = cs' := by
  rw [toList_indentation, toList_indentation] at h
  induction level generalizing level' with
  | zero =>
    cases level' with
    | zero => exact ⟨rfl, h⟩
    | succ level' => exact absurd (congrArg List.head? h) hcs
  | succ level ih =>
    cases level' with
    | zero => exact absurd (congrArg List.head? h.symm) hcs'
    | succ level' =>
      obtain ⟨rfl, hrest⟩ := ih (List.cons.inj (List.cons.inj h).2).2
      exact ⟨rfl, hrest⟩

/-- The characters of the line of an operation, without the one that ends it. -/
def lineText (line : Nat × Op) : List Char := (indentation line.1).toList ++ line.2.label.toList

theorem newline_not_mem_lineText {line : Nat × Op} (h : line.2.IsDescribable) :
    '\n' ∉ lineText line := by
  rw [lineText, toList_indentation, List.mem_append, not_or]
  refine ⟨fun hmem => ?_, Op.newline_not_mem_label h⟩
  obtain ⟨mark, hmark, hmem⟩ := List.mem_flatten.mp hmem
  rw [List.eq_of_mem_replicate hmark] at hmem
  exact absurd hmem (by decide)

/-- **A line** is read up to its end. -/
theorem line_append_inj {cs cs' rest rest' : List Char} (hcs : '\n' ∉ cs) (hcs' : '\n' ∉ cs')
    (h : cs ++ '\n' :: rest = cs' ++ '\n' :: rest') : cs = cs' ∧ rest = rest' := by
  induction cs generalizing cs' with
  | nil =>
    cases cs' with
    | nil => exact ⟨rfl, (List.cons.inj h).2⟩
    | cons c cs' => exact absurd ((List.cons.inj h).1 ▸ List.mem_cons_self) hcs'
  | cons c cs ih =>
    cases cs' with
    | nil => exact absurd ((List.cons.inj h).1 ▸ List.mem_cons_self) hcs
    | cons c' cs' =>
      obtain ⟨rfl, htail⟩ := List.cons.inj h
      obtain ⟨rfl, hrest⟩ := ih (fun hmem => hcs (List.mem_cons_of_mem c hmem))
        (fun hmem => hcs' (List.mem_cons_of_mem c hmem)) htail
      exact ⟨rfl, hrest⟩

/-- What a line **tells** of its operation. -/
def lineKey (line : Nat × Op) : Nat × Op := (line.1, line.2.withoutFormat)

/-- A line gives back the level and the operation, **but for the format of a variable**. -/
theorem lineKey_eq_of_lineText {line line' : Nat × Op} (h : line.2.IsDescribable)
    (h' : line'.2.IsDescribable) (htext : lineText line = lineText line') :
    lineKey line = lineKey line' := by
  obtain ⟨hlevel, hlabel⟩ :=
    indentation_append_inj (Op.head?_label_ne h) (Op.head?_label_ne h') htext
  exact Prod.ext hlevel (Op.withoutFormat_eq_of_label h h' (String.toList_inj.mp hlabel))

theorem lineText_lineKey (line : Nat × Op) : lineText (lineKey line) = lineText line := by
  rw [lineText, lineKey, Op.label_withoutFormat, lineText]

/-- The characters of some lines, each with the one that ends it. -/
def linesText (lines : List (Nat × Op)) : List Char :=
  lines.flatMap fun line => lineText line ++ ['\n']

theorem linesText_cons (line : Nat × Op) (lines : List (Nat × Op)) :
    linesText (line :: lines) = lineText line ++ '\n' :: linesText lines := by
  rw [linesText, List.flatMap_cons, List.append_assoc]
  rfl

theorem linesText_append (lines lines' : List (Nat × Op)) :
    linesText (lines ++ lines') = linesText lines ++ linesText lines' :=
  List.flatMap_append

theorem linesText_map_lineKey (lines : List (Nat × Op)) :
    linesText (lines.map lineKey) = linesText lines := by
  rw [linesText, List.flatMap_map]
  exact List.flatMap_congr fun line _ => by rw [lineText_lineKey]

/-- **Lines** give back what each of them tells. -/
theorem map_lineKey_eq_of_linesText {lines lines' : List (Nat × Op)}
    (hlines : ∀ line ∈ lines, line.2.IsDescribable)
    (hlines' : ∀ line ∈ lines', line.2.IsDescribable)
    (h : linesText lines = linesText lines') : lines.map lineKey = lines'.map lineKey := by
  induction lines generalizing lines' with
  | nil =>
    cases lines' with
    | nil => rfl
    | cons line' lines' =>
      rw [linesText_cons] at h
      exact absurd h.symm (by simp [linesText])
  | cons line lines ih =>
    cases lines' with
    | nil =>
      rw [linesText_cons] at h
      exact absurd h (by simp [linesText])
    | cons line' lines' =>
      rw [List.forall_mem_cons] at hlines hlines'
      rw [linesText_cons, linesText_cons] at h
      obtain ⟨htext, hrest⟩ := line_append_inj (newline_not_mem_lineText hlines.1)
        (newline_not_mem_lineText hlines'.1) h
      rw [List.map_cons, List.map_cons, ih hlines.2 hlines'.2 hrest,
        lineKey_eq_of_lineText hlines.1 hlines'.1 htext]

/-- A description is **the lines of the outline**. -/
theorem toList_describeFrom (level : Nat) (e : Expr) :
    (describeFrom none level e).toList = linesText (outline level e) := by
  induction e generalizing level with
  | node op es ih =>
    have hes : (describeAllFrom none (level + 1) es).toList =
        linesText (outlineAll (level + 1) es) := by
      induction es with
      | nil => rfl
      | cons e es ihs =>
        rw [describeAllFrom, String.toList_append, ih e List.mem_cons_self,
          ihs fun a ha => ih a (List.mem_cons_of_mem e ha), outlineAll, linesText_append]
    rw [describeFrom, outline, linesText_cons, lineText, String.toList_append,
      String.toList_append, String.toList_append, hes, List.append_assoc]
    rfl

/-! ### Descriptions -/

mutual

/-- A tree with the **formats of its variables forgotten**. -/
def withoutFormats : Expr → Expr
  | node op es => node op.withoutFormat (withoutFormatsAll es)

/-- A list of trees with the formats of their variables forgotten. -/
def withoutFormatsAll : List Expr → List Expr
  | [] => []
  | e :: es => withoutFormats e :: withoutFormatsAll es

end

theorem outline_withoutFormats (level : Nat) (e : Expr) :
    outline level e.withoutFormats = (outline level e).map lineKey := by
  induction e generalizing level with
  | node op es ih =>
    have hes : outlineAll (level + 1) (withoutFormatsAll es) =
        (outlineAll (level + 1) es).map lineKey := by
      induction es with
      | nil => rfl
      | cons e es ihs =>
        rw [withoutFormatsAll, outlineAll, ih e List.mem_cons_self,
          ihs fun a ha => ih a (List.mem_cons_of_mem e ha), outlineAll, List.map_append]
    rw [withoutFormats, outline, outline, hes]
    rfl

/-- The trees of which **every operation** is known by its name and attribute. -/
def IsDescribable (e : Expr) : Prop := ∀ a ∈ e.subterms, a.op.IsDescribable

instance : DecidablePred IsDescribable := fun e =>
  inferInstanceAs (Decidable (∀ a ∈ e.subterms, a.op.IsDescribable))

/-- **Descriptions identify trees**: two trees are described alike exactly if they are the same but
for the formats of their variables. So a copy of a tree, which is built from the operations of the
tree, is described like the tree. -/
theorem description_identifies (he : e.IsDescribable) (he' : e'.IsDescribable) :
    (e.describe = e'.describe ↔ e.withoutFormats = e'.withoutFormats) ∧
      (e.WellFormed → ∃ c, e.copy = .ok c ∧ c.describe = e.describe) := by
  have hlines : ∀ {a : Expr}, a.IsDescribable → ∀ line ∈ outline 0 a, line.2.IsDescribable := by
    intro a ha line hline
    obtain ⟨b, hb, hop⟩ := exists_subterm_of_mem_outline hline
    exact hop ▸ ha b hb
  refine ⟨⟨fun h => ?_, fun h => ?_⟩, fun hwell => ⟨e, hwell.copy_eq, rfl⟩⟩
  · have htext := congrArg String.toList h
    rw [describe, describe, toList_describeFrom, toList_describeFrom] at htext
    have hkeys := map_lineKey_eq_of_linesText (hlines he) (hlines he') htext
    rw [← outline_withoutFormats, ← outline_withoutFormats] at hkeys
    exact outline_injective 0 hkeys
  · rw [← String.toList_inj, describe, describe, toList_describeFrom, toList_describeFrom,
      ← linesText_map_lineKey, ← outline_withoutFormats, h, outline_withoutFormats,
      linesText_map_lineKey]

/-- Sequences, calls, tuples and an operation of no known kind, in which a variable may be given a
format, and in which two operands may change their places: the format is not told, and the places
are. -/
theorem description_identifies_statement :
    let body (f : Option ResultFormat) (a b : Expr) : Expr :=
      node .statement
        [node .assignment [node (.var "y" f) [], node (.fromBits none) [node (.bitPattern 255) []]],
          node .result
            [node (.custom "Opaque") [a, node .tuple [b, node (.tupleSelection (-1)) [a]]]]]
    let x : Expr := node (.var "x" none) []
    let call : Expr := node (.functionCall "exp") [x]
    (body none x call).describe = (body (some (.binary .double)) x call).describe ∧
      (body none x call).describe ≠ (body none call x).describe ∧
      ∃ c, (body none x call).copy = .ok c ∧ c.describe = (body none x call).describe := by
  intro body x call
  have hbody : (body none x call).IsDescribable := by decide
  have hformat := description_identifies hbody
    (show (body (some (.binary .double)) x call).IsDescribable by decide)
  have hplaces := description_identifies hbody
    (show (body none call x).IsDescribable by decide)
  exact ⟨hformat.1.mpr rfl, (nomatch hplaces.1.mp ·), hformat.2 rfl⟩

end Expr

end Elementary
