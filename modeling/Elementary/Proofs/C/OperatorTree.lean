import Elementary.Proofs.C.Numeral
import Elementary.Proofs.C.Piece
import Elementary.Proofs.Source.Acceptance

/-!
# The operators of generated expressions

The operator tree of an expression says how its operations are to be nested in C, without a word
about parentheses. Every text that the C backend writes for an operation is an operand, or a number,
so that the operations around it cannot take hold of a part of it: reading the text of a whole
expression gives back its operator tree.

## Main definitions

* `Expr.operatorTree`: the operator tree of an expression.
* `Expr.HasFreeNames`: the names in an expression are names in C as well.

## Main results

* `isOperand_operation`: what the backend writes for an operation is an operand, if what it writes
  for the operands is.
* `isOperand_lower`: the text of an expression is an operand that stands for its operator tree.
* `parse_lower`: parsing the text of an expression gives its operator tree.
-/

namespace Elementary

namespace C

/-- The **suffixes** of library functions: those of the two precisions, and that of the widest. -/
def suffixes : List String := [suffixOf .single, suffixOf .double, widestSuffix]

/-- The **function** that an operation is a call of, when its arguments are the operands. -/
def functionOf? (suffix : String) : Op → Option String
  | .absolute => some ("fabs" ++ suffix)
  | .nearestInteger => some ("rint" ++ suffix)
  | .floor => some ("floor" ++ suffix)
  | .exponentExtraction => some ("logb" ++ suffix)
  | .fusedMultiplyAdd => some "mul_add"
  | .mathFunction name => (libraryFunction? name).map (· ++ widestSuffix)
  | .functionCall name => some name
  | _ => none

/-- The operator tree of an **operation**, from those of its operands. -/
def operationTree (suffix : String) (op : Op) (operands : List Tree) : Option Tree :=
  match op, operands with
  | .negation, [x] => some (.unary "-" x)
  | .isOdd, [x] => some (.binary "&" (.cast "long long" x) (.number "1"))
  | .exponentInsertion, [x] =>
    some (.call (.name ("ldexp" ++ suffix)) [.number (one suffix).text, .cast "int" x])
  | .mantissaExtraction, [x] =>
    some (.call (.name ("scalbn" ++ suffix))
      [x, .unary "-" (.call (.name ("ilogb" ++ suffix)) [x])])
  | .conversion (some (.binary q)), [x] => some (.cast (scalarType q) x)
  | .select, [c, a, b] => some (.conditional c a b)
  | .tupleSelection index, [x] => some (.member x ("v" ++ toString index))
  | op, operands =>
    match operator? op, operands with
    | some symbol, [x, y] => some (.binary symbol x y)
    | _, _ => (functionOf? suffix op).map fun f => .call (.name f) operands

/-- A numeral with its sign. -/
def signedNumber (negative : Bool) (spelling : String) : Tree :=
  if negative then .unary "-" (.number spelling) else .number spelling

/-- The operator tree of a **constant**: the function that makes a number of bits, or a number. -/
def constantTree (p : Precision) (coding : Int) : Option ResultFormat → Option Tree
  | some (.binary q) =>
    if q = p then
      some (.call (.name "from_bits")
        [signedNumber (decide (coding < 0)) ("0x" ++ Text.hex coding.natAbs ++ codingSuffix q)])
    else
      (q.format.decode? coding).map fun v =>
        signedNumber (decide (v < 0)) (Datum.ofRat Precision.double.format false v.abs).hexText
  | _ => none

end C

namespace Expr

mutual

/-- The **operator tree** of an expression in C. -/
def operatorTree (p : Precision) (suffix : String) : Expr → Option C.Tree
  | node op operands =>
    match op, operands with
    | .fromBits format, [x] => x.coding.toOption.bind fun c => C.constantTree p c format
    | .var name _, _ => some (.name name)
    | op, operands => (operatorTrees p suffix operands).bind (C.operationTree suffix op)

/-- The operator trees of a list of expressions. -/
def operatorTrees (p : Precision) (suffix : String) : List Expr → Option (List C.Tree)
  | [] => some []
  | e :: es => do return (← operatorTree p suffix e) :: (← operatorTrees p suffix es)

end

end Expr

namespace C

/-! ### Texts of terms -/

variable {suffix : String} {t : Term} {tree : Tree} {ts : List Term} {trees : List Tree}

theorem texts_eq_map (ts : List Term) : Term.texts ts = ts.map Term.text := by
  induction ts with
  | nil => rfl
  | cons t ts ih => rw [Term.texts, ih, List.map_cons]

/-- A term whose text **stands for a tree** as an operand. -/
def Term.Reads (t : Term) (tree : Tree) : Prop := IsOperand MayFollow t.text tree

/-- A term of whose value a member may be selected as well. -/
def Term.ReadsSelectable (t : Term) (tree : Tree) : Prop :=
  IsOperand MayFollowSelectable t.text tree

theorem Term.ReadsSelectable.reads (h : t.ReadsSelectable tree) : t.Reads tree := h.of_selectable

/-- What stands in parentheses is an operand. -/
theorem readsSelectable_parenthesized (h : IsEnclosed t.text tree) :
    (Term.parenthesized t).ReadsSelectable tree :=
  h.parenthesized

/-- A call of a function on enclosed arguments. -/
theorem readsSelectable_call_of_isEnclosed {f : String} (hf : isName f = true)
    (h : List.Forall₂ (fun t tree => IsEnclosed t.text tree) ts trees) :
    (Term.call f ts).ReadsSelectable (.call (.name f) trees) := by
  rw [Term.ReadsSelectable, Term.text, texts_eq_map]
  exact isOperand_call hf (List.forall₂_map_left_iff.mpr h)

/-- A call of a function on operands. -/
theorem readsSelectable_call {f : String} (hf : isName f = true)
    (h : List.Forall₂ Term.Reads ts trees) :
    (Term.call f ts).ReadsSelectable (.call (.name f) trees) :=
  readsSelectable_call_of_isEnclosed hf (h.imp fun _ _ h => h.isEnclosed)

/-- A negation. -/
theorem isEnclosed_negation (h : t.Reads tree) :
    IsEnclosed (Term.negation t).text (.unary "-" tree) :=
  IsOperand.negation h

/-- A conversion to a type of one word. -/
theorem isEnclosed_cast {type : String} (htype : typeWords.contains type = true)
    (h : t.Reads tree) : IsEnclosed (Term.cast type t).text (.cast type tree) := by
  have hcast := IsOperand.cast h [type] (List.cons_ne_nil type []) (by simpa using htype)
  rwa [String.intercalate_singleton] at hcast

/-- The operators between two operands are marks that have a level. -/
theorem operator?_spec {op : Op} {m : String} (h : operator? op = some m) :
    Token.Spells m (.mark m) ∧ ∃ level, level? m = some level := by
  cases op with
  | addition =>
    obtain rfl := Option.some.inj h
    exact ⟨⟨'+', [], _, rfl, rfl, rfl⟩, 12, rfl⟩
  | subtraction =>
    obtain rfl := Option.some.inj h
    exact ⟨⟨'-', [], _, rfl, rfl, rfl⟩, 12, rfl⟩
  | multiplication =>
    obtain rfl := Option.some.inj h
    exact ⟨⟨'*', [], _, rfl, rfl, rfl⟩, 13, rfl⟩
  | division =>
    obtain rfl := Option.some.inj h
    exact ⟨⟨'/', [], _, rfl, rfl, rfl⟩, 13, rfl⟩
  | comparison r =>
    obtain rfl := Option.some.inj h
    cases r with
    | less => exact ⟨⟨'<', [], _, rfl, rfl, rfl⟩, 10, rfl⟩
    | lessOrEqual => exact ⟨⟨'<', ['='], _, rfl, rfl, rfl⟩, 10, rfl⟩
    | greater => exact ⟨⟨'>', [], _, rfl, rfl, rfl⟩, 10, rfl⟩
    | greaterOrEqual => exact ⟨⟨'>', ['='], _, rfl, rfl, rfl⟩, 10, rfl⟩
  | _ => cases h

/-- An operator between two operands, in parentheses. -/
theorem readsSelectable_infixTerm {m : String} {x y : Term} {tx ty : Tree}
    (hm : Token.Spells m (.mark m) ∧ ∃ level, level? m = some level) (hx : x.Reads tx)
    (hy : y.Reads ty) : (infixTerm m x y).ReadsSelectable (.binary m tx ty) := by
  obtain ⟨hspells, level, hlevel⟩ := hm
  exact readsSelectable_parenthesized (IsOperand.binary hx hy hspells hlevel)

/-! ### Names and numbers that the backend writes -/

/-- The functions that are called for operations are names. -/
theorem isName_append_suffix : ∀ suffix ∈ suffixes, ∀ f ∈
    ["fabs", "rint", "floor", "ldexp", "logb", "scalbn", "ilogb"],
    isName (f ++ suffix) = true := by
  decide

theorem isName_libraryFunction {name f : String} (h : libraryFunction? name = some f) :
    isName (f ++ widestSuffix) = true := by
  have hnames : ∀ f ∈ ["log", "sin", "cos", "tan", "asin", "acos", "atan", "exp", "exp2", "log2",
      "log10", "sinh", "cosh", "tanh", "atanh", "sqrt", "hypot"],
      isName (f ++ widestSuffix) = true := by
    decide
  rw [libraryFunction?] at h
  split_ifs at h with hln hname
  · obtain rfl := Option.some.inj h
    exact hnames "log" (by decide)
  · obtain rfl := Option.some.inj h
    exact hnames name (List.mem_cons_of_mem _ (List.contains_iff_mem.mp hname))

/-- The members of results are names. -/
theorem isName_member (n : Nat) : isName ("v" ++ toString n) = true := by
  obtain ⟨d, ds, hdigits⟩ := List.exists_cons_of_ne_nil (Nat.toDigits_ne_nil (n := n) (b := 10))
  have hdigit : ∀ c ∈ d :: ds, c.isDigit = true := fun c hc =>
    Nat.isDigit_of_mem_toDigits (by omega) (by omega) (hdigits ▸ hc)
  have hlist : ("v" ++ toString n).toList = 'v' :: d :: ds := by
    rw [String.toList_append, Nat.toString_eq_ofList_toDigits, hdigits]
    exact congrArg ('v' :: ·) String.toList_ofList
  have hidentifier : Token.isIdentifier ("v" ++ toString n) = true := by
    rw [Token.isIdentifier, hlist]
    have hall : (d :: ds).all Token.isWordChar = true := by
      refine List.all_eq_true.mpr fun c hc => ?_
      rw [Token.isWordChar, Char.isAlphanum, hdigit c hc, Bool.or_true, Bool.true_or]
    exact hall
  have hreserved : ∀ w ∈ typeWords ++ keywords, w.toList.head? = some 'v' →
      (w.toList[1]?.all fun c => !c.isDigit) = true := by
    decide
  have hfree : "v" ++ toString n ∉ typeWords ++ keywords := by
    intro hmem
    have hsecond := hreserved _ hmem (by rw [hlist]; rfl)
    rw [hlist, List.getElem?_cons_succ, List.getElem?_cons_zero, Option.all_some,
      hdigit d List.mem_cons_self] at hsecond
    cases hsecond
  rw [List.mem_append, not_or] at hfree
  rw [isName, hidentifier, Bool.true_and]
  simpa [isFreeWord] using hfree

/-- A number without an exponent. -/
theorem reads_literal {s : String} {c : Char} {cs : List Char} (hs : s.toList = c :: cs)
    (hc : c.isDigit = true) (hcs : ∀ c ∈ cs, (Token.isWordChar c || c == '.') = true) :
    (Term.literal s).Reads (.number s) := by
  have hword : Token.isWordChar c = true := by
    rw [Token.isWordChar, Char.isAlphanum, hc, Bool.or_true, Bool.true_or]
  exact isOperand_number (Token.spells_number hs hc hcs) ⟨c, cs, hs, hword⟩

/-- The numeral one with a suffix. -/
theorem reads_one (hsuffix : suffix ∈ suffixes) :
    (one suffix).Reads (.number (one suffix).text) := by
  have hcases : ∀ suffix ∈ suffixes, suffix = "f" ∨ suffix = "" ∨ suffix = "l" := by decide
  rcases hcases suffix hsuffix with rfl | rfl | rfl
  · have hlist : "1.0f".toList = '1' :: ['.', '0', 'f'] := rfl
    exact reads_literal hlist rfl (List.all_eq_true.mp rfl)
  · have hlist : "1.0".toList = '1' :: ['.', '0'] := rfl
    exact reads_literal hlist rfl (List.all_eq_true.mp rfl)
  · have hlist : "1.0L".toList = '1' :: ['.', '0', 'L'] := rfl
    exact reads_literal hlist rfl (List.all_eq_true.mp rfl)

/-! ### Operations -/

variable {op : Op} {α β : Type} {R : α → β → Prop} {as : List α} {bs : List β}

theorem forall₂_one (h : List.Forall₂ R as bs) (hlength : as.length = 1) :
    ∃ a b, as = [a] ∧ bs = [b] ∧ R a b := by
  obtain ⟨a, rfl⟩ := List.length_eq_one_iff.mp hlength
  cases h with
  | cons ha h =>
    cases h
    exact ⟨a, _, rfl, rfl, ha⟩

theorem forall₂_two (h : List.Forall₂ R as bs) (hlength : as.length = 2) :
    ∃ a₁ a₂ b₁ b₂, as = [a₁, a₂] ∧ bs = [b₁, b₂] ∧ R a₁ b₁ ∧ R a₂ b₂ := by
  obtain ⟨a₁, a₂, rfl⟩ := List.length_eq_two.mp hlength
  cases h with
  | cons h₁ h =>
    obtain ⟨_, _, ⟨⟩, rfl, h₂⟩ := forall₂_one h rfl
    exact ⟨a₁, a₂, _, _, rfl, rfl, h₁, h₂⟩

theorem forall₂_three (h : List.Forall₂ R as bs) (hlength : as.length = 3) :
    ∃ a₁ a₂ a₃ b₁ b₂ b₃, as = [a₁, a₂, a₃] ∧ bs = [b₁, b₂, b₃] ∧ R a₁ b₁ ∧ R a₂ b₂ ∧ R a₃ b₃ := by
  obtain ⟨a₁, a₂, a₃, rfl⟩ := List.length_eq_three.mp hlength
  cases h with
  | cons h₁ h =>
    obtain ⟨_, _, _, _, ⟨⟩, rfl, h₂, h₃⟩ := forall₂_two h rfl
    exact ⟨a₁, a₂, a₃, _, _, _, rfl, rfl, h₁, h₂, h₃⟩

/-- The names and the selections of an operation have a form in C. -/
structure IsPlain (op : Op) (ts : List Term) (trees : List Tree) : Prop where
  call : ∀ name, op = .functionCall name → isName name = true
  selection : ∀ i, op = .tupleSelection i → 0 ≤ i ∧ List.Forall₂ Term.ReadsSelectable ts trees

/-- What the backend writes for an **operation** is an operand from which members may be selected,
if what it writes for the operands are operands. -/
theorem readsSelectable_operation (hsuffix : suffix ∈ suffixes) (hop : isOperation op = true)
    (harity : ∀ k, op.arity = some k → ts.length = k) (hplain : IsPlain op ts trees)
    (hts : List.Forall₂ Term.Reads ts trees) (h : operation suffix op ts = .ok t) :
    ∃ tree, operationTree suffix op trees = some tree ∧ t.ReadsSelectable tree := by
  have hfunction : ∀ f ∈ ["fabs", "rint", "floor", "ldexp", "logb", "scalbn", "ilogb"],
      isName (f ++ suffix) = true := isName_append_suffix suffix hsuffix
  have hunary (hlength : ts.length = 1) (f : String)
      (hf : f ∈ ["fabs", "rint", "floor", "ldexp", "logb", "scalbn", "ilogb"])
      (hterm : ∀ x, operation suffix op [x] = .ok (.call (f ++ suffix) [x]))
      (htree : ∀ x, operationTree suffix op [x] = some (.call (.name (f ++ suffix)) [x])) :
      ∃ tree, operationTree suffix op trees = some tree ∧ t.ReadsSelectable tree := by
    obtain ⟨x, tx, rfl, rfl, hx⟩ := forall₂_one hts hlength
    obtain rfl := Except.ok.inj ((hterm x).symm.trans h)
    exact ⟨_, htree tx, readsSelectable_call (hfunction f hf) hts⟩
  have hbinary (hlength : ts.length = 2) {m : String} (hm : operator? op = some m)
      (hterm : ∀ x y, operation suffix op [x, y] = .ok (infixTerm m x y))
      (htree : ∀ x y, operationTree suffix op [x, y] = some (.binary m x y)) :
      ∃ tree, operationTree suffix op trees = some tree ∧ t.ReadsSelectable tree := by
    obtain ⟨x, y, tx, ty, rfl, rfl, hx, hy⟩ := forall₂_two hts hlength
    obtain rfl := Except.ok.inj ((hterm x y).symm.trans h)
    exact ⟨_, htree tx ty, readsSelectable_infixTerm (operator?_spec hm) hx hy⟩
  cases op with
  | negation =>
    obtain ⟨x, tx, rfl, rfl, hx⟩ := forall₂_one hts (harity 1 rfl)
    obtain rfl := Except.ok.inj h
    exact ⟨_, rfl, readsSelectable_parenthesized (isEnclosed_negation hx)⟩
  | absolute => exact hunary (harity 1 rfl) "fabs" (by decide) (fun _ => rfl) fun _ => rfl
  | nearestInteger => exact hunary (harity 1 rfl) "rint" (by decide) (fun _ => rfl) fun _ => rfl
  | floor => exact hunary (harity 1 rfl) "floor" (by decide) (fun _ => rfl) fun _ => rfl
  | exponentExtraction =>
    exact hunary (harity 1 rfl) "logb" (by decide) (fun _ => rfl) fun _ => rfl
  | isOdd =>
    obtain ⟨x, tx, rfl, rfl, hx⟩ := forall₂_one hts (harity 1 rfl)
    obtain rfl := Except.ok.inj h
    -- the whole number that is tested stands in parentheses of its own
    have hcast : IsEnclosed (Term.cast "long long" x).text (.cast "long long" tx) :=
      IsOperand.cast hx ["long", "long"] (by decide) (by decide)
    have hlist : "1".toList = '1' :: [] := rfl
    have hone : (Term.literal "1").Reads (.number "1") :=
      reads_literal hlist rfl (List.all_eq_true.mp rfl)
    have hmark : Token.Spells "&" (.mark "&") := ⟨'&', [], _, rfl, rfl, rfl⟩
    exact ⟨_, rfl, readsSelectable_infixTerm ⟨hmark, 8, rfl⟩
      (readsSelectable_parenthesized hcast).reads hone⟩
  | exponentInsertion =>
    obtain ⟨x, tx, rfl, rfl, hx⟩ := forall₂_one hts (harity 1 rfl)
    obtain rfl := Except.ok.inj h
    exact ⟨_, rfl, readsSelectable_call_of_isEnclosed (hfunction "ldexp" (by decide))
      (.cons (reads_one hsuffix).isEnclosed (.cons (isEnclosed_cast (by decide) hx) .nil))⟩
  | mantissaExtraction =>
    obtain ⟨x, tx, rfl, rfl, hx⟩ := forall₂_one hts (harity 1 rfl)
    obtain rfl := Except.ok.inj h
    -- the operand is written twice, and each time as an argument of its own
    have hexponent := readsSelectable_call (hfunction "ilogb" (by decide)) hts
    exact ⟨_, rfl, readsSelectable_call_of_isEnclosed (hfunction "scalbn" (by decide))
      (.cons hx.isEnclosed (.cons (isEnclosed_negation hexponent.reads) .nil))⟩
  | addition => exact hbinary (harity 2 rfl) rfl (fun _ _ => rfl) fun _ _ => rfl
  | subtraction => exact hbinary (harity 2 rfl) rfl (fun _ _ => rfl) fun _ _ => rfl
  | multiplication => exact hbinary (harity 2 rfl) rfl (fun _ _ => rfl) fun _ _ => rfl
  | division => exact hbinary (harity 2 rfl) rfl (fun _ _ => rfl) fun _ _ => rfl
  | comparison r => exact hbinary (harity 2 rfl) rfl (fun _ _ => rfl) fun _ _ => rfl
  | fusedMultiplyAdd =>
    obtain ⟨x, y, z, tx, ty, tz, rfl, rfl, hx, hy, hz⟩ := forall₂_three hts (harity 3 rfl)
    obtain rfl := Except.ok.inj h
    exact ⟨_, rfl, readsSelectable_call (by decide) hts⟩
  | select =>
    obtain ⟨x, y, z, tx, ty, tz, rfl, rfl, hx, hy, hz⟩ := forall₂_three hts (harity 3 rfl)
    obtain rfl := Except.ok.inj h
    exact ⟨_, rfl, readsSelectable_parenthesized (IsOperand.conditional hx hy hz)⟩
  | functionCall name =>
    obtain rfl := Except.ok.inj h
    exact ⟨_, rfl, readsSelectable_call (hplain.call name rfl) hts⟩
  | tupleSelection index =>
    obtain ⟨hindex, hselectable⟩ := hplain.selection index rfl
    obtain ⟨x, tx, rfl, rfl, hx⟩ := forall₂_one hselectable (harity 1 rfl)
    obtain ⟨n, rfl⟩ := Int.eq_ofNat_of_zero_le hindex
    obtain rfl := Except.ok.inj h
    exact ⟨_, rfl, IsOperand.member hx (isName_member n)⟩
  | _ => cases hop

/-! ### Constants -/

/-- The literal of a coding stands between the parentheses of a call. -/
theorem isEnclosed_codingLiteral (p : Precision) (coding : Int) :
    IsEnclosed (codingLiteral p coding).text
      (signedNumber (decide (coding < 0)) ("0x" ++ Text.hex coding.natAbs ++ codingSuffix p)) := by
  have hliteral : (Term.literal ("0x" ++ Text.hex coding.natAbs ++ codingSuffix p)).Reads
      (.number ("0x" ++ Text.hex coding.natAbs ++ codingSuffix p)) :=
    isOperand_number (spells_coding p _)
      ⟨'0', 'x' :: (Text.hex coding.natAbs ++ codingSuffix p).toList,
        by simp [Term.text, String.toList_append], rfl⟩
  rw [codingLiteral, signedNumber]
  by_cases hneg : coding < 0
  · rw [if_pos hneg, if_pos (decide_eq_true hneg)]
    exact isEnclosed_negation hliteral
  · rw [if_neg hneg, if_neg (by simpa using hneg)]
    exact hliteral.isEnclosed

/-- A number with its sign, the negative one in parentheses. -/
theorem reads_signed {s : String} (h : (Term.literal s).Reads (.number s)) (negative : Bool) :
    (Term.signed negative s).Reads (signedNumber negative s) := by
  cases negative with
  | false => exact h
  | true => exact (readsSelectable_parenthesized (isEnclosed_negation h)).reads

/-- What the backend writes for a **constant** is an operand. -/
theorem reads_constant {p : Precision} {coding : Int} {format : Option ResultFormat}
    (h : constant p coding format = .ok t) :
    ∃ tree, constantTree p coding format = some tree ∧ t.Reads tree := by
  unfold constant at h
  split at h
  · next q =>
    by_cases hq : q = p
    · rw [if_pos hq] at h
      obtain rfl := Except.ok.inj h
      refine ⟨_, by rw [constantTree, if_pos hq], ?_⟩
      exact (readsSelectable_call_of_isEnclosed (by decide)
        (.cons (isEnclosed_codingLiteral q coding) .nil)).reads
    · rw [if_neg hq] at h
      split at h
      · next v hv =>
        obtain rfl := Except.ok.inj h
        refine ⟨_, by rw [constantTree, if_neg hq, hv, Option.map_some], ?_⟩
        obtain ⟨cs, hcs⟩ := begins_hexText v.abs
        have hliteral : (Term.literal (Datum.finite false v.abs).hexText).Reads
            (.number (Datum.finite false v.abs).hexText) :=
          isOperand_number (spells_hexText v.abs) ⟨'0', cs, hcs, rfl⟩
        rw [Datum.ofRat_abs_of_decode? hv]
        exact reads_signed hliteral _
      · cases h
  · cases h

end C

/-! ### Expressions -/

/-- Whether members may be selected from the value of an operation: it names a variable, or calls a
function. -/
def Op.isSelectable : Op → Bool
  | .var _ _ | .functionCall _ => true
  | _ => false

namespace Expr

variable {e : Expr} {op : Op} {es : List Expr}

/-- The names in an expression **are names in C**; members are selected from variables and calls
only, and their numbers are not negative. -/
structure HasPlainNames (e : Expr) : Prop where
  var : ∀ name format operands, node (.var name format) operands ∈ e.subterms →
    C.isName name = true
  call : ∀ name operands, node (.functionCall name) operands ∈ e.subterms → C.isName name = true
  selection : ∀ i x, node (.tupleSelection i) [x] ∈ e.subterms → 0 ≤ i ∧ x.op.isSelectable = true

theorem HasPlainNames.of_mem (h : (node op es).HasPlainNames) (he : e ∈ es) : e.HasPlainNames where
  var name format operands hmem := h.var name format operands (mem_subterms_of_mem he hmem)
  call name operands hmem := h.call name operands (mem_subterms_of_mem he hmem)
  selection i x hmem := h.selection i x (mem_subterms_of_mem he hmem)

end Expr

namespace C

variable {p : Precision} {e : Expr} {es : List Expr}

theorem operatorTree_conversion (p : Precision) (suffix : String) (f : Option ResultFormat)
    (es : List Expr) :
    (Expr.node (.conversion f) es).operatorTree p suffix =
      (Expr.operatorTrees p suffix es).bind (operationTree suffix (.conversion f)) :=
  rfl

theorem operatorTree_mathFunction (p : Precision) (suffix name : String) (es : List Expr) :
    (Expr.node (.mathFunction name) es).operatorTree p suffix =
      (Expr.operatorTrees p suffix es).bind (operationTree suffix (.mathFunction name)) :=
  rfl

theorem operationTree_mathFunction (suffix name : String) (trees : List Tree) :
    operationTree suffix (.mathFunction name) trees =
      (libraryFunction? name).map fun f => .call (.name (f ++ widestSuffix)) trees := by
  have hform : operationTree suffix (.mathFunction name) trees =
      (functionOf? suffix (.mathFunction name)).map fun f => .call (.name f) trees := rfl
  rw [hform, functionOf?, Option.map_map]
  rfl

/-- The operator trees of operands, from what the backend writes for each of them. -/
theorem exists_operatorTrees {R : Term → Tree → Prop}
    (hes : ∀ e ∈ es, ∀ t, lower p suffix e = .ok t →
      ∃ tree, e.operatorTree p suffix = some tree ∧ R t tree)
    (h : lowerAll p suffix es = .ok ts) :
    ts.length = es.length ∧
      ∃ trees, Expr.operatorTrees p suffix es = some trees ∧ List.Forall₂ R ts trees := by
  have hforms := mapM_eq_ok.mp (lowerAll_eq_mapM p suffix es ▸ h)
  refine ⟨hforms.length_eq.symm, ?_⟩
  clear h
  induction hforms with
  | nil => exact ⟨[], rfl, .nil⟩
  | @cons e t es ts ht _ ih =>
    obtain ⟨tree, htree, hR⟩ := hes e List.mem_cons_self t ht
    obtain ⟨trees, htrees, hall⟩ := ih fun e he => hes e (List.mem_cons_of_mem _ he)
    refine ⟨tree :: trees, ?_, .cons hR hall⟩
    rw [Expr.operatorTrees, htree, htrees]
    rfl

/-- A conversion to a precision, in parentheses of its own. -/
theorem readsSelectable_conversion {format : Option ResultFormat} {type : String} {x : Term}
    {tx : Tree} (htype : conversionType format = .ok type) (hx : x.Reads tx) :
    ∃ tree, operationTree suffix (.conversion format) [tx] = some tree ∧
      (Term.parenthesized (.cast type x)).ReadsSelectable tree := by
  obtain ⟨q, rfl, rfl⟩ : ∃ q, format = some (.binary q) ∧ type = scalarType q := by
    unfold conversionType at htype
    split at htype
    · exact ⟨_, rfl, (Except.ok.inj htype).symm⟩
    · cases htype
    · cases htype
  have hword : typeWords.contains (scalarType q) = true := by
    cases q <;> decide
  exact ⟨_, rfl, readsSelectable_parenthesized (isEnclosed_cast hword hx)⟩

/-- A **step of the induction**: an operation in a whole expression, whose operands are read as
their operator trees. -/
theorem readsSelectable_of_operands {op : Op} (hsuffix : suffix ∈ suffixes)
    (hwf : (Expr.node op es).WellFormed) (hnames : (Expr.node op es).HasPlainNames)
    (hes : ∀ e ∈ es, ∀ t, lower p suffix e = .ok t →
      ∃ tree, e.operatorTree p suffix = some tree ∧ t.Reads tree ∧
        (e.op.isSelectable = true → t.ReadsSelectable tree))
    (hop : isOperation op = true) (hts : lowerAll p suffix es = .ok ts)
    (h : operation suffix op ts = .ok t) :
    ∃ tree, (Expr.operatorTrees p suffix es).bind (operationTree suffix op) = some tree ∧
      t.ReadsSelectable tree := by
  obtain ⟨hlength, trees, htrees, hall⟩ :=
    exists_operatorTrees (fun e he t ht => (hes e he t ht).imp fun _ h => ⟨h.1, h.2.1⟩) hts
  have hplain : IsPlain op ts trees := by
    refine ⟨fun name hname => ?_, fun i hi => ?_⟩
    · subst hname
      exact hnames.call name es (Expr.self_mem_subterms _)
    · subst hi
      obtain ⟨x, rfl⟩ := hwf.exists_operand rfl
      obtain ⟨hindex, hx⟩ := hnames.selection i x (Expr.self_mem_subterms _)
      have hselectable : ∀ e ∈ [x], ∀ t, lower p suffix e = .ok t →
          ∃ tree, e.operatorTree p suffix = some tree ∧ t.ReadsSelectable tree := by
        intro e he t ht
        obtain ⟨tree, htree, -, hselectable⟩ := hes e he t ht
        obtain rfl := List.mem_singleton.mp he
        exact ⟨tree, htree, hselectable hx⟩
      obtain ⟨-, trees', htrees', hall'⟩ := exists_operatorTrees hselectable hts
      obtain rfl : trees' = trees := Option.some.inj (htrees'.symm.trans htrees)
      exact ⟨hindex, hall'⟩
  rw [htrees]
  exact readsSelectable_operation hsuffix hop (fun k hk => hlength.trans (hwf.length_eq hk))
    hplain hall h

/-- **The text of an expression** is an operand that stands for the operator tree; members may be
selected from it if it is a variable or a call. -/
theorem reads_lower (hsuffix : suffix ∈ suffixes) (hwf : e.WellFormed) (hnames : e.HasPlainNames)
    (h : lower p suffix e = .ok t) :
    ∃ tree, e.operatorTree p suffix = some tree ∧ t.Reads tree ∧
      (e.op.isSelectable = true → t.ReadsSelectable tree) := by
  induction e generalizing t with
  | node op es ih =>
    have hes : ∀ e ∈ es, ∀ t, lower p suffix e = .ok t →
        ∃ tree, e.operatorTree p suffix = some tree ∧ t.Reads tree ∧
          (e.op.isSelectable = true → t.ReadsSelectable tree) :=
      fun e he t ht => ih e he (hwf.of_mem he) (hnames.of_mem he) ht
    have hoperation (hop : isOperation op = true)
        (hlower : lower p suffix (.node op es) = lowerAll p suffix es >>= operation suffix op)
        (htree : (Expr.node op es).operatorTree p suffix =
          (Expr.operatorTrees p suffix es).bind (operationTree suffix op)) :
        ∃ tree, (Expr.node op es).operatorTree p suffix = some tree ∧ t.Reads tree ∧
          (op.isSelectable = true → t.ReadsSelectable tree) := by
      obtain ⟨ts, hts, hterm⟩ := bind_eq_ok.mp (hlower ▸ h)
      obtain ⟨tree, htree', hreads⟩ :=
        readsSelectable_of_operands hsuffix hwf hnames hes hop hts hterm
      exact ⟨tree, htree.trans htree', hreads.reads, fun _ => hreads⟩
    cases op with
    | fromBits f =>
      -- a constant is the only operand from which no member may be selected
      obtain ⟨x, rfl⟩ := hwf.exists_operand rfl
      have hcoding : (x.coding >>= fun c => constant p c f) = .ok t := h
      obtain ⟨c, hc, hconstant⟩ := bind_eq_ok.mp hcoding
      obtain ⟨tree, htree, hreads⟩ := reads_constant hconstant
      have hform : (Expr.node (.fromBits f) [x]).operatorTree p suffix =
          x.coding.toOption.bind fun c => constantTree p c f := rfl
      refine ⟨tree, ?_, hreads, fun hselectable => by cases hselectable⟩
      rw [hform, hc]
      exact htree
    | var name format =>
      obtain rfl := Except.ok.inj h
      have hname := isOperand_name (hnames.var name format es (Expr.self_mem_subterms _))
      exact ⟨_, rfl, hname.of_selectable, fun _ => hname⟩
    | conversion f =>
      obtain ⟨x, rfl⟩ := hwf.exists_operand rfl
      obtain ⟨type, tx, htype, hlower, rfl⟩ := lower_conversion_eq_ok h
      obtain ⟨operand, hoperand, hx, -⟩ := hes x List.mem_cons_self tx hlower
      obtain ⟨tree, htree, hreads⟩ := readsSelectable_conversion htype hx
      have hoperands : Expr.operatorTrees p suffix [x] = some [operand] := by
        rw [Expr.operatorTrees, hoperand]
        rfl
      refine ⟨tree, ?_, hreads.reads, fun _ => hreads⟩
      rw [operatorTree_conversion, hoperands]
      exact htree
    | mathFunction name =>
      obtain ⟨f, ts, hf, hts, rfl⟩ := lower_mathFunction_eq_ok h
      obtain ⟨-, trees, htrees, hall⟩ :=
        exists_operatorTrees (fun e he t ht => (hes e he t ht).imp fun _ h => ⟨h.1, h.2.1⟩) hts
      have hcall := readsSelectable_call (isName_libraryFunction hf) hall
      have htree : operationTree suffix (.mathFunction name) trees =
          some (.call (.name (f ++ widestSuffix)) trees) := by
        rw [operationTree_mathFunction, hf, Option.map_some]
      refine ⟨_, ?_, hcall.reads, fun _ => hcall⟩
      rw [operatorTree_mathFunction, htrees]
      exact htree
    | _ => first | exact hoperation rfl rfl rfl | cases h

/-- **Parsing the text of an expression** gives its operator tree. -/
theorem parse_lower (hsuffix : suffix ∈ suffixes) (hwf : e.WellFormed) (hnames : e.HasPlainNames)
    (h : lower p suffix e = .ok t) : parse t.text = e.operatorTree p suffix := by
  obtain ⟨tree, htree, hreads, -⟩ := reads_lower hsuffix hwf hnames h
  rw [htree]
  exact hreads.isEnclosed.parse_eq

end C

end Elementary
