import Elementary.Proofs.C.OperatorTree
import Elementary.Proofs.Source.Acceptance

/-!
# Reading generated expressions back

From the operator tree of an expression everything is known that the C backend has written of it:
which operation stands where, the codings of the constants of its own format, and the values of
all others. What it does not write is the format of a variable and the format of a constant whose
value it writes; it makes no difference between a coding and an integer that stands for it, nor
between a negative constant and the negation of its magnitude. Expressions that have the same text
therefore agree in everything else.

## Main definitions

* `Expr.written`: an expression in the form in which it is written.
* `read?`: the expression of an operator tree.
* `Expr.HasOwnNames`: the names in an expression are none of those that the backend writes.

## Main results

* `read?_operatorTree`: reading an operator tree gives the expression as it was written.
* `text_unambiguous`: the text of an expression has one reading.
-/

namespace Elementary

namespace Expr

/-- A number as it is written: a negative one is the negation of its magnitude. -/
def ofWrittenValue (v : Rat) : Expr :=
  if v < 0 then -constant (.ratio v.abs) else constant (.ratio v.abs)

/-- A **constant as it is written**: the bits of one of the format of the code, the value of any
other. -/
def writtenConstant (p : Precision) (coding : Int) (q : Precision) : Expr :=
  if q = p then node (.fromBits (some (.binary q))) [node (.bitPattern coding) []]
  else ofWrittenValue ((q.format.decode? coding).getD 0)

mutual

/-- An expression **as it is written** in the code of a precision. Variables have no format, and
constants are what is written for them. -/
def written (p : Precision) : Expr → Expr
  | node op operands =>
    match op, operands with
    | .fromBits (some (.binary q)), [x] =>
      match x.coding with
      | .ok coding => writtenConstant p coding q
      | .error _ => node op operands
    | .var name _, _ => var name
    | op, operands => node op (writtenAll p operands)

/-- Expressions as they are written, one by one. -/
def writtenAll (p : Precision) : List Expr → List Expr
  | [] => []
  | e :: es => written p e :: writtenAll p es

end

theorem writtenAll_eq_map (p : Precision) (es : List Expr) :
    writtenAll p es = es.map (written p) := by
  induction es with
  | nil => rfl
  | cons e es ih => rw [writtenAll, ih, List.map_cons]

end Expr

namespace C

/-! ### Names that the backend writes -/

/-- The names that **the backend itself writes** in expressions, types apart. -/
def emittedNames (suffix : String) : List String :=
  ["from_bits", "mul_add"] ++
    ["fabs", "rint", "floor", "ldexp", "logb", "scalbn", "ilogb"].map (· ++ suffix) ++
    Source.libraryNames.filterMap fun name => (libraryFunction? name).map (· ++ widestSuffix)

/-- The operations that are written as calls of functions that the backend names. -/
def namedOperations : List Op :=
  [.absolute, .nearestInteger, .floor, .exponentExtraction, .fusedMultiplyAdd] ++
    Source.libraryNames.map .mathFunction

/-- The **operation that a call stands for**, by the name of the function. -/
def operationOf (suffix function : String) : Op :=
  (namedOperations.find? fun op => functionOf? suffix op = some function).getD
    (.functionCall function)

/-! ### Reading operator trees -/

/-- The coding that a numeral holds, with its sign. -/
def coding? : Tree → Option Int
  | .number s => (hexInteger? s).map Int.ofNat
  | .unary _ (.number s) => (hexInteger? s).map fun n : Nat => -(n : Int)
  | _ => none

/-- The expression of a **call**, from the arguments and what they are read as. -/
def readCall? (p : Precision) (suffix : String) (function : Tree) (arguments : List Tree)
    (read : List (Option Expr)) : Option Expr :=
  match function with
  | .name f =>
    if f = "from_bits" then
      (arguments.head?.bind coding?).map fun c =>
        .node (.fromBits (some (.binary p))) [.node (.bitPattern c) []]
    else if f = "ldexp" ++ suffix then read[1]?.join.map Expr.exponentInsertion
    else if f = "scalbn" ++ suffix then read[0]?.join.map Expr.mantissaExtraction
    else (read.mapM id).map (.node (operationOf suffix f))
  | _ => none

/-- The operations of **operators** between two operands. -/
def operatorOperations : List Op :=
  [.addition, .subtraction, .multiplication, .division, .comparison .less,
    .comparison .lessOrEqual, .comparison .greater, .comparison .greaterOrEqual]

/-- The expression of an operator between two operands; the lowest bit tells whether a number is
odd. -/
def readBinary? (m : String) (left right : Option Expr) : Option Expr :=
  if m = "&" then left.map Expr.isOdd
  else do
    let op ← operatorOperations.find? fun op => operator? op = some m
    return .node op [← left, ← right]

/-- The expression of a conversion; those to whole numbers belong to the operation around them. -/
def readCast (type : String) (x : Expr) : Expr :=
  match Precision.all.find? fun q => scalarType q = type with
  | some q => .node (.conversion (some (.binary q))) [x]
  | none => x

mutual

/-- The **expression of an operator tree**. -/
def read? (p : Precision) (suffix : String) : Tree → Option Expr
  | .name name => some (.var name)
  | .number s => (hexFloat? s).map fun v => .constant (.ratio v)
  | .call function arguments =>
    readCall? p suffix function arguments (readEach p suffix arguments)
  | .member x name => do
    let index ← decimal? (name.toList.drop 1)
    return .node (.tupleSelection index) [← read? p suffix x]
  | .unary _ x => (read? p suffix x).map fun x => -x
  | .cast type x => (read? p suffix x).map (readCast type)
  | .binary m x y => readBinary? m (read? p suffix x) (read? p suffix y)
  | .conditional c x y => do
    return .select (← read? p suffix c) (← read? p suffix x) (← read? p suffix y)

/-- The expressions of operator trees, each by itself. -/
def readEach (p : Precision) (suffix : String) : List Tree → List (Option Expr)
  | [] => []
  | t :: ts => read? p suffix t :: readEach p suffix ts

end

variable {p : Precision} {suffix name f m : String} {op : Op} {e x y : Expr} {es : List Expr}
  {tree : Tree} {trees : List Tree}

/-! ### Calls and operators -/

/-- A function that the backend names tells the operation. -/
theorem operationOf_eq_of_mem : ∀ suffix ∈ suffixes, ∀ op ∈ namedOperations,
    ∀ f ∈ functionOf? suffix op, operationOf suffix f = op := by
  decide +kernel

/-- The functions that the backend names are among the names that it writes, and none of them is one
that is read in another way. -/
theorem functionOf?_spec : ∀ suffix ∈ suffixes, ∀ op ∈ namedOperations,
    ∀ f ∈ functionOf? suffix op, f ∈ emittedNames suffix ∧
      f ∉ ["from_bits", "ldexp" ++ suffix, "scalbn" ++ suffix] := by
  decide +kernel

theorem special_mem_emittedNames : ∀ suffix ∈ suffixes,
    ∀ f ∈ ["from_bits", "ldexp" ++ suffix, "scalbn" ++ suffix], f ∈ emittedNames suffix := by
  decide +kernel

/-- An operation that is written as a call of its operands is one that the backend names, or a call
of a generated function. -/
theorem mem_namedOperations (h : functionOf? suffix op = some f) :
    op ∈ namedOperations ∨ op = .functionCall f := by
  cases op with
  | absolute => exact .inl (by decide)
  | nearestInteger => exact .inl (by decide)
  | floor => exact .inl (by decide)
  | exponentExtraction => exact .inl (by decide)
  | fusedMultiplyAdd => exact .inl (by decide)
  | functionCall name => exact .inr (congrArg Op.functionCall (Option.some.inj h))
  | mathFunction name =>
    obtain ⟨g, hg, -⟩ := Option.map_eq_some_iff.mp h
    have hname : name ∈ Source.libraryNames := by
      rw [← List.contains_iff_mem, ← libraryFunction?_isSome, hg]
      rfl
    exact .inl (List.mem_append_right _ (List.mem_map_of_mem hname))
  | _ => cases h

/-- The calls of generated functions are none of the calls that the backend writes. -/
theorem operationOf_of_not_mem (hsuffix : suffix ∈ suffixes) (h : name ∉ emittedNames suffix) :
    operationOf suffix name = .functionCall name := by
  have hnone : (namedOperations.find? fun op => functionOf? suffix op = some name) = none := by
    rw [List.find?_eq_none]
    intro op hop hname
    exact h (functionOf?_spec suffix hsuffix op hop name (of_decide_eq_true hname)).1
  rw [operationOf, hnone]
  rfl

/-- **A call of the operands** is read as the operation. -/
theorem readCall?_of_functionOf? (hsuffix : suffix ∈ suffixes)
    (hop : functionOf? suffix op = some f)
    (hname : ∀ name, op = .functionCall name → name ∉ emittedNames suffix) (es : List Expr) :
    readCall? p suffix (.name f) trees (es.map some) = some (.node op es) := by
  have hspec : f ∉ ["from_bits", "ldexp" ++ suffix, "scalbn" ++ suffix] ∧
      operationOf suffix f = op := by
    rcases mem_namedOperations hop with hmem | rfl
    · exact ⟨(functionOf?_spec suffix hsuffix op hmem f hop).2,
        operationOf_eq_of_mem suffix hsuffix op hmem f hop⟩
    · have hnot := hname f rfl
      exact ⟨fun hmem => hnot (special_mem_emittedNames suffix hsuffix f hmem),
        operationOf_of_not_mem hsuffix hnot⟩
  obtain ⟨hspecial, hoperation⟩ := hspec
  simp only [List.mem_cons, List.not_mem_nil, or_false, not_or] at hspecial
  have hall : (es.map some).mapM id = some es := by
    induction es with
    | nil => rfl
    | cons e es ih => simp_all
  simp only [readCall?]
  rw [if_neg hspecial.1, if_neg hspecial.2.1, if_neg hspecial.2.2, hall, hoperation]
  rfl

/-- **An operator between two operands** is read as its operation. -/
theorem readBinary?_of_operator? (h : operator? op = some m) (x y : Expr) :
    readBinary? m (some x) (some y) = some (.node op [x, y]) := by
  cases op with
  | addition =>
    obtain rfl := Option.some.inj h
    rfl
  | subtraction =>
    obtain rfl := Option.some.inj h
    rfl
  | multiplication =>
    obtain rfl := Option.some.inj h
    rfl
  | division =>
    obtain rfl := Option.some.inj h
    rfl
  | comparison r =>
    obtain rfl := Option.some.inj h
    cases r <;> rfl
  | _ => cases h

/-! ### Constants -/

/-- The numeral of a coding, with its sign, holds the coding. -/
theorem coding?_signedNumber (p : Precision) (c : Int) :
    coding? (signedNumber (decide (c < 0)) ("0x" ++ Text.hex c.natAbs ++ codingSuffix p)) =
      some c := by
  rw [signedNumber]
  by_cases hc : c < 0
  · have hneg : -(c.natAbs : Int) = c := by omega
    rw [if_pos (decide_eq_true hc), coding?, hexInteger?_coding, Option.map_some, hneg]
  · have hnonneg : Int.ofNat c.natAbs = c := by
      rw [Int.ofNat_eq_natCast]
      omega
    rw [if_neg (by simpa using hc), coding?, hexInteger?_coding, Option.map_some, hnonneg]

/-- **A constant** is read as it is written. -/
theorem read?_constantTree {c : Int} {q : Precision}
    (h : constantTree p c (some (.binary q)) = some tree) :
    read? p suffix tree = some (Expr.writtenConstant p c q) := by
  rw [constantTree] at h
  rw [Expr.writtenConstant]
  by_cases hq : q = p
  · rw [if_pos hq] at h
    obtain rfl := Option.some.inj h
    rw [if_pos hq, read?, readCall?, if_pos rfl, List.head?_cons, Option.bind_some,
      coding?_signedNumber, hq]
    rfl
  · rw [if_neg hq] at h
    obtain ⟨v, hv, rfl⟩ := Option.map_eq_some_iff.mp h
    have hvalue := hexFloat?_of_decode? hv
    rw [if_neg hq, hv, Option.getD_some, Expr.ofWrittenValue, signedNumber]
    by_cases hneg : v < 0
    · rw [if_pos (decide_eq_true hneg), if_pos hneg, read?, read?, hvalue]
      rfl
    · rw [if_neg (by simpa using hneg), if_neg hneg, read?, hvalue]
      rfl

/-! ### Expressions -/

/-- What holds of the operator tree of every operand holds of their operator trees, one by one. -/
theorem forall₂_operatorTrees {R : Expr → Tree → Prop}
    (hes : ∀ e ∈ es, ∀ tree, e.operatorTree p suffix = some tree → R e tree)
    (h : Expr.operatorTrees p suffix es = some trees) : List.Forall₂ R es trees := by
  induction es generalizing trees with
  | nil =>
    obtain rfl := Option.some.inj h
    exact .nil
  | cons e es ih =>
    obtain ⟨tree, htree, hrest⟩ := Option.bind_eq_some_iff.mp h
    obtain ⟨trees', htrees, hlist⟩ := Option.bind_eq_some_iff.mp hrest
    obtain rfl := Option.some.inj hlist
    exact .cons (hes e List.mem_cons_self tree htree)
      (ih (fun e he => hes e (List.mem_cons_of_mem _ he)) htrees)

theorem readEach_eq_map (h : List.Forall₂ (fun e tree => read? p suffix tree = some e) es trees) :
    readEach p suffix trees = es.map some := by
  induction h with
  | nil => rfl
  | cons hread _ ih => rw [readEach, hread, ih, List.map_cons]

/-- The functions around a whole exponent have names of their own. -/
theorem special_ne : ∀ suffix ∈ suffixes, "ldexp" ++ suffix ≠ "from_bits" ∧
    "scalbn" ++ suffix ≠ "from_bits" ∧ "scalbn" ++ suffix ≠ "ldexp" ++ suffix := by
  decide

/-- The number of a member is read from its name. -/
theorem decimal?_member (n : Nat) : decimal? (("v" ++ toString n).toList.drop 1) = some n := by
  rw [String.toList_append]
  exact decimal?_toString n

/-- **The operator tree of an operation** is read as the operation on what the operator trees of the
operands are read as. -/
theorem read?_operationTree {xs : List Expr} (hsuffix : suffix ∈ suffixes)
    (harity : ∀ k, op.arity = some k → xs.length = k)
    (hcall : ∀ name, op = .functionCall name → name ∉ emittedNames suffix)
    (hselection : ∀ i, op = .tupleSelection i → 0 ≤ i)
    (hread : List.Forall₂ (fun x tree => read? p suffix tree = some x) xs trees)
    (h : operationTree suffix op trees = some tree) :
    read? p suffix tree = some (.node op xs) := by
  obtain ⟨hldexp, hscalbn, hne⟩ := special_ne suffix hsuffix
  have hoperator (hlength : xs.length = 2) {m : String} (hm : operator? op = some m)
      (htree : ∀ x y, operationTree suffix op [x, y] = some (.binary m x y)) :
      read? p suffix tree = some (.node op xs) := by
    obtain ⟨x, y, tx, ty, rfl, rfl, hx, hy⟩ := forall₂_two hread hlength
    obtain rfl := Option.some.inj ((htree tx ty).symm.trans h)
    rw [read?, hx, hy, readBinary?_of_operator? hm]
  have hfunction (htree : operationTree suffix op trees =
      (functionOf? suffix op).map fun f => .call (.name f) trees) :
      read? p suffix tree = some (.node op xs) := by
    obtain ⟨f, hf, rfl⟩ := Option.map_eq_some_iff.mp (htree.symm.trans h)
    have heach : readEach p suffix trees = xs.map some := readEach_eq_map hread
    rw [read?, heach, readCall?_of_functionOf? hsuffix hf hcall]
  cases op with
  | negation =>
    obtain ⟨x, tx, rfl, rfl, hx⟩ := forall₂_one hread (harity 1 rfl)
    obtain rfl := Option.some.inj h
    rw [read?, hx]
    rfl
  | isOdd =>
    obtain ⟨x, tx, rfl, rfl, hx⟩ := forall₂_one hread (harity 1 rfl)
    obtain rfl := Option.some.inj h
    have hcast : read? p suffix (.cast "long long" tx) = some x := by
      rw [read?, hx]
      rfl
    rw [read?, hcast]
    rfl
  | exponentInsertion =>
    obtain ⟨x, tx, rfl, rfl, hx⟩ := forall₂_one hread (harity 1 rfl)
    obtain rfl := Option.some.inj h
    have hcast : read? p suffix (.cast "int" tx) = some x := by
      rw [read?, hx]
      rfl
    rw [read?, readCall?, if_neg hldexp, if_pos rfl, readEach, readEach, hcast]
    rfl
  | mantissaExtraction =>
    obtain ⟨x, tx, rfl, rfl, hx⟩ := forall₂_one hread (harity 1 rfl)
    obtain rfl := Option.some.inj h
    rw [read?, readCall?, if_neg hscalbn, if_neg hne, if_pos rfl, readEach, hx]
    rfl
  | conversion f =>
    obtain ⟨x, tx, rfl, rfl, hx⟩ := forall₂_one hread (harity 1 rfl)
    match f, h with
    | some (.binary q), h =>
      obtain rfl := Option.some.inj h
      have hcast : readCast (scalarType q) x = .node (.conversion (some (.binary q))) [x] := by
        cases q <;> rfl
      rw [read?, hx, Option.map_some, hcast]
  | select =>
    obtain ⟨x, y, z, tx, ty, tz, rfl, rfl, hx, hy, hz⟩ := forall₂_three hread (harity 3 rfl)
    obtain rfl := Option.some.inj h
    rw [read?, hx, hy, hz]
    rfl
  | tupleSelection index =>
    obtain ⟨x, tx, rfl, rfl, hx⟩ := forall₂_one hread (harity 1 rfl)
    obtain ⟨n, rfl⟩ := Int.eq_ofNat_of_zero_le (hselection index rfl)
    obtain rfl := Option.some.inj h
    have hindex : decimal? (("v" ++ toString (n : Int)).toList.drop 1) = some n :=
      decimal?_member n
    rw [read?, hindex, hx]
    rfl
  | addition => exact hoperator (harity 2 rfl) rfl fun _ _ => rfl
  | subtraction => exact hoperator (harity 2 rfl) rfl fun _ _ => rfl
  | multiplication => exact hoperator (harity 2 rfl) rfl fun _ _ => rfl
  | division => exact hoperator (harity 2 rfl) rfl fun _ _ => rfl
  | comparison r => exact hoperator (harity 2 rfl) rfl fun _ _ => rfl
  | _ => exact hfunction rfl

end C

/-- The names in an expression **are names of its own**: names in C, the functions that it calls
being none of those that the backend writes. -/
structure Expr.HasOwnNames (suffix : String) (e : Expr) : Prop extends e.HasPlainNames where
  distinct : ∀ name operands, node (.functionCall name) operands ∈ e.subterms →
    name ∉ C.emittedNames suffix

theorem Expr.HasOwnNames.of_mem {suffix : String} {op : Op} {e : Expr} {es : List Expr}
    (h : (node op es).HasOwnNames suffix) (he : e ∈ es) : e.HasOwnNames suffix where
  toHasPlainNames := h.toHasPlainNames.of_mem he
  distinct name operands hmem := h.distinct name operands (mem_subterms_of_mem he hmem)

namespace C

variable {p : Precision} {suffix : String} {e e' : Expr} {t t' : Term} {tree : Tree}

/-- **Reading an operator tree** gives the expression as it was written. -/
theorem read?_operatorTree (hsuffix : suffix ∈ suffixes) (hwf : e.WellFormed)
    (hnames : e.HasOwnNames suffix) (h : e.operatorTree p suffix = some tree) :
    read? p suffix tree = some (e.written p) := by
  induction e generalizing tree with
  | node op es ih =>
    have hread {trees : List Tree} (htrees : Expr.operatorTrees p suffix es = some trees) :
        List.Forall₂ (fun x tree => read? p suffix tree = some x) (Expr.writtenAll p es)
          trees := by
      rw [Expr.writtenAll_eq_map, List.forall₂_map_left_iff]
      exact forall₂_operatorTrees
        (fun e he tree htree => ih e he (hwf.of_mem he) (hnames.of_mem he) htree) htrees
    have hoperation
        (htree : (Expr.node op es).operatorTree p suffix =
          (Expr.operatorTrees p suffix es).bind (operationTree suffix op))
        (hwritten : (Expr.node op es).written p = .node op (Expr.writtenAll p es)) :
        read? p suffix tree = some ((Expr.node op es).written p) := by
      obtain ⟨trees, htrees, hop⟩ := Option.bind_eq_some_iff.mp (htree.symm.trans h)
      rw [hwritten]
      refine read?_operationTree hsuffix (fun k hk => ?_) (fun name hname => ?_) (fun i hi => ?_)
        (hread htrees) hop
      · rw [Expr.writtenAll_eq_map, List.length_map]
        exact hwf.length_eq hk
      · subst hname
        exact hnames.distinct name es (Expr.self_mem_subterms _)
      · subst hi
        obtain ⟨x, rfl⟩ := hwf.exists_operand rfl
        exact (hnames.selection i x (Expr.self_mem_subterms _)).1
    cases op with
    | fromBits f =>
      obtain ⟨x, rfl⟩ := hwf.exists_operand rfl
      have hconstant : (x.coding.toOption.bind fun c => constantTree p c f) = some tree := h
      obtain ⟨c, hc, htree⟩ := Option.bind_eq_some_iff.mp hconstant
      match f, htree with
      | some (.binary q), htree =>
        have hcoding : x.coding = .ok c := by
          cases hx : x.coding with
          | ok c' =>
            rw [hx] at hc
            exact congrArg Except.ok (Option.some.inj hc)
          | error failure =>
            rw [hx] at hc
            cases hc
        have hwritten : (Expr.node (.fromBits (some (.binary q))) [x]).written p =
            Expr.writtenConstant p c q := by
          rw [Expr.written, hcoding]
        rw [hwritten]
        exact read?_constantTree htree
    | var name format =>
      obtain rfl := Option.some.inj h
      rfl
    | _ => exact hoperation rfl rfl

/-- **The text of an expression is unambiguous.** Parsing it gives the operator tree of the
expression, and every expression of the same text is written in the same way. -/
theorem text_unambiguous (hsuffix : suffix ∈ suffixes) (hwf : e.WellFormed)
    (hnames : e.HasOwnNames suffix) (h : lower p suffix e = .ok t) :
    (∃ tree, e.operatorTree p suffix = some tree ∧ parse t.text = some tree) ∧
      ∀ e' t', e'.WellFormed → e'.HasOwnNames suffix → lower p suffix e' = .ok t' →
        t.text = t'.text → e.written p = e'.written p := by
  obtain ⟨tree, htree, -⟩ := reads_lower hsuffix hwf hnames.toHasPlainNames h
  have hparse : parse t.text = some tree :=
    (parse_lower hsuffix hwf hnames.toHasPlainNames h).trans htree
  refine ⟨⟨tree, htree, hparse⟩, fun e' t' hwf' hnames' h' htext => ?_⟩
  have htree' : e'.operatorTree p suffix = some tree := by
    rw [← parse_lower hsuffix hwf' hnames'.toHasPlainNames h', ← htext, hparse]
  have hread := read?_operatorTree hsuffix hwf hnames htree
  have hread' := read?_operatorTree hsuffix hwf' hnames' htree'
  exact Option.some.inj (hread.symm.trans hread')

/-- A selection from a call, where a variable is given with its format or without. -/
theorem text_unambiguous_pair :
    (∃ tree, (Expr.node (.tupleSelection 1) [.call "pair" [-.var "x"]]).operatorTree .single "f" =
        some tree ∧ parse "pair((-x)).v1" = some tree) ∧
      (Expr.node (.tupleSelection 1) [.call "pair" [-.var "x"]]).written .single =
        (Expr.node (.tupleSelection 1)
          [.call "pair" [-.node (.var "x" (some (.binary .single))) []]]).written .single := by
  have hnames : ∀ f, (Expr.node (.tupleSelection 1)
      [.call "pair" [-.node (.var "x" f) []]]).HasOwnNames "f" := by
    intro f
    have hsubterms : ∀ a ∈ (Expr.node (.tupleSelection 1)
        [.call "pair" [-.node (.var "x" f) []]]).subterms,
        a = .node (.tupleSelection 1) [.call "pair" [-.node (.var "x" f) []]] ∨
          a = .call "pair" [-.node (.var "x" f) []] ∨
          a = .node .negation [.node (.var "x" f) []] ∨ a = .node (.var "x" f) [] := by
      intro a ha
      simpa [Expr.subterms, Expr.subtermsAll, Expr.call] using ha
    refine ⟨⟨fun name format operands ha => ?_, fun name operands ha => ?_, fun i x ha => ?_⟩,
      fun name operands ha => ?_⟩
    · rcases hsubterms _ ha with h | h | h | h <;> cases h
      decide
    · rcases hsubterms _ ha with h | h | h | h <;> cases h
      decide
    · rcases hsubterms _ ha with h | h | h | h <;> cases h
      exact ⟨by decide, rfl⟩
    · rcases hsubterms _ ha with h | h | h | h <;> cases h
      decide
  obtain ⟨hparse, hsame⟩ := text_unambiguous (p := .single) (by decide) (by rfl) (hnames none) rfl
  exact ⟨hparse, hsame _ _ (by rfl) (hnames _) rfl rfl⟩

/-- The text of an expression, if the backend has one. -/
def text? (p : Precision) (suffix : String) (e : Expr) : Option String :=
  (lower p suffix e).toOption.map Term.text

/-- **What the text leaves open.** A negative constant of another format has the text of the
negation of its magnitude; a coding has the text of the integer that stands for it; and a selection
by a negative number is read as a difference. -/
theorem text_ambiguous :
    text? .single "f" (.node (.fromBits (some (.binary .double)))
        [.node (.bitPattern 0xbff8000000000000) []]) = some "(-0x1.8000000000000p+0)" ∧
      text? .single "f" (-.node (.fromBits (some (.binary .double)))
        [.node (.bitPattern 0x3ff8000000000000) []]) = some "(-0x1.8000000000000p+0)" ∧
      Op.fromBits (some (.binary .double)) ≠ .negation ∧
    text? .single "f" (.node (.fromBits (some (.binary .single))) [.node (.bitPattern 5) []]) =
        some "from_bits(0x5u)" ∧
      text? .single "f" (.node (.fromBits (some (.binary .single))) [.constant (.integer 5)]) =
        some "from_bits(0x5u)" ∧
      Op.bitPattern 5 ≠ .constant (.integer 5) ∧
    text? .single "f" (.node (.tupleSelection (-1)) [.var "x"]) = some "x.v-1" ∧
      parse "x.v-1" = some (.binary "-" (.member (.name "x") "v") (.number "1")) ∧
      (Expr.node (.tupleSelection (-1)) [.var "x"]).operatorTree .single "f" =
        some (.member (.name "x") "v-1") := by
  refine ⟨?_, ?_, by decide, ?_, ?_, by decide, ?_, rfl, rfl⟩ <;> decide +kernel

end C

end Elementary
