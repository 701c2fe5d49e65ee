import Elementary.Function
import Elementary.Proofs.Expr.Quantize
import Elementary.Proofs.Format.Coding
import Elementary.Proofs.Source.Acceptance

/-!
# Closed expressions and bodies

An expression is closed in a scope when it reads only the variables and calls only the functions of
the scope, these with as many arguments as they take, and is otherwise built from numbers and from
operations that have a meaning in every language. A body is closed when its statements assign closed
expressions to variables, each of which is in scope from then on, and the last one gives a closed
expression as the value.

Quantization keeps all this, and puts codings of finite numbers in the places of the numbers.

## Main definitions

* `NameScope`: variables, and functions with their numbers of arguments.
* `Expr.isClosed`, `Expr.ClosedBody`: closed expressions and bodies.
* `Expr.Quantized`, `Expr.QuantizedStatement`: what is known of an expression, and of a statement of
  a body, that was closed before it was quantized.

## Main results

* `Expr.quantized_coded`: a closed expression, after it was quantized.
* `Expr.ClosedBody.quantizedStatement`: the statements of a closed body, after they were quantized.
-/

namespace Elementary

/-- What an expression **may read and call**: variables, and functions with their numbers of
arguments. In the reference of a test also exact mathematical functions may stand. -/
structure NameScope where
  names : List String
  functions : List (String × Nat)
  isReference : Bool

namespace NameScope

/-- Whether an operation on so many operands **may stand** in an expression. -/
def admits (S : NameScope) (op : Op) (operands : Nat) : Bool :=
  match op with
  | .constant _ | .mathConstant _ => operands == 0
  | .var name _ => operands == 0 && S.names.contains name
  | .functionCall name => S.functions.contains (name, operands)
  | .mathFunction name => S.isReference && Source.libraryNames.contains name
  | op => C.isOperation op && op.arity == some operands

/-- The scope after an assignment. -/
def bind (S : NameScope) (name : String) : NameScope := { S with names := name :: S.names }

/-- A scope **within another one**. -/
structure Within (S T : NameScope) : Prop where
  names : ∀ name ∈ S.names, name ∈ T.names
  functions : ∀ f ∈ S.functions, f ∈ T.functions
  isReference : S.isReference = true → T.isReference = true

variable {S T : NameScope} {op : Op} {n : Nat}

/-- A larger scope admits more. -/
theorem Within.admits (h : S.Within T) (hop : S.admits op n = true) : T.admits op n = true := by
  cases op with
  | var name format =>
    simp only [NameScope.admits, Bool.and_eq_true, List.contains_iff_mem] at hop ⊢
    exact ⟨hop.1, h.names name hop.2⟩
  | functionCall name =>
    simp only [NameScope.admits, List.contains_iff_mem] at hop ⊢
    exact h.functions _ hop
  | mathFunction name =>
    simp only [NameScope.admits, Bool.and_eq_true] at hop ⊢
    exact ⟨h.isReference hop.1, hop.2⟩
  | _ => exact hop

/-- An assignment leaves everything in scope. -/
theorem within_bind (S : NameScope) (name : String) : S.Within (S.bind name) :=
  ⟨fun _ h => List.mem_cons_of_mem name h, fun _ h => h, id⟩

theorem Within.bind (h : S.Within T) (name : String) : (S.bind name).Within (T.bind name) :=
  ⟨fun _ hname => (List.mem_cons.mp hname).elim (fun h => h ▸ List.mem_cons_self)
    fun hname => List.mem_cons_of_mem name (h.names _ hname), h.functions, h.isReference⟩

/-- An operation that is admitted takes so many operands. -/
theorem checkArity_of_admits (h : S.admits op n = true) : op.checkArity n = .ok () := by
  rw [Op.checkArity_eq_ok_iff]
  intro k hk
  cases op <;> simp_all [admits, Op.arity]

end NameScope

namespace Expr

variable {S T : NameScope} {op : Op} {e a : Expr} {es : List Expr} {name : String}

mutual

/-- Whether an expression is **closed** in a scope. -/
def isClosed (S : NameScope) : Expr → Bool
  | node op es => S.admits op es.length && allClosed S es

/-- Whether all expressions of a list are closed. -/
def allClosed (S : NameScope) : List Expr → Bool
  | [] => true
  | e :: es => isClosed S e && allClosed S es

end

theorem allClosed_eq_all (es : List Expr) : allClosed S es = es.all (isClosed S) := by
  induction es with
  | nil => rfl
  | cons e es ih => rw [allClosed, ih, List.all_cons]

/-- A closed expression, by its root. -/
theorem isClosed_node : (node op es).isClosed S = true ↔
    S.admits op es.length = true ∧ ∀ e ∈ es, e.isClosed S = true := by
  rw [isClosed, allClosed_eq_all, Bool.and_eq_true, List.all_eq_true]

/-- What is closed in a scope is closed in a larger one. -/
theorem isClosed_mono (h : S.Within T) (he : e.isClosed S = true) : e.isClosed T = true := by
  induction e with
  | node op es ih =>
    obtain ⟨hop, hes⟩ := isClosed_node.mp he
    exact isClosed_node.mpr ⟨h.admits hop, fun e he => ih e he (hes e he)⟩

/-- Closed expressions are well formed. -/
theorem wellFormed_of_isClosed (he : e.isClosed S = true) : e.WellFormed := by
  induction e with
  | node op es ih =>
    obtain ⟨hop, hes⟩ := isClosed_node.mp he
    exact wellFormed_node.mpr ⟨NameScope.checkArity_of_admits hop, fun e he => ih e he (hes e he)⟩

/-- **Closed bodies**: statements that assign closed expressions, and then one that gives a closed
expression, or several, as the value. -/
inductive ClosedBody : NameScope → List Expr → Prop
  | result {S : NameScope} {e : Expr} (he : e.isClosed S = true) : ClosedBody S [node .result [e]]
  | results {S : NameScope} {es : List Expr} (hes : ∀ e ∈ es, e.isClosed S = true) :
    ClosedBody S [node .result [node .tuple es]]
  | assignment {S : NameScope} {name : String} {format : Option ResultFormat} {e : Expr}
      {rest : List Expr} (he : e.isClosed S = true) (hrest : ClosedBody (S.bind name) rest) :
      ClosedBody S (node .assignment [node (.var name format) [], e] :: rest)

/-- A body that is closed in a scope is closed in a larger one. -/
theorem ClosedBody.mono {statements : List Expr} (hbody : ClosedBody S statements)
    (h : S.Within T) : ClosedBody T statements := by
  induction hbody generalizing T with
  | result he => exact .result (isClosed_mono h he)
  | results hes => exact .results fun e he => isClosed_mono h (hes e he)
  | assignment he _ ih => exact .assignment (isClosed_mono h he) (ih (h.bind _))

/-- An assignment may be repeated before a body when its value and the body are closed without
it. -/
theorem ClosedBody.replicate {format : Option ResultFormat} {rest : List Expr}
    (he : e.isClosed S = true) (hrest : ClosedBody S rest) (count : Nat) :
    ClosedBody S
      (List.replicate count (node .assignment [node (.var name format) [], e]) ++ rest) := by
  induction count generalizing S with
  | zero => exact hrest
  | succ count ih =>
    exact .assignment he (ih (isClosed_mono (S.within_bind name) he)
      (hrest.mono (S.within_bind name)))

end Expr

/-! ### Quantized expressions -/

namespace Expr

variable {S : NameScope} {nt : NumberType} {op : Op} {e a : Expr} {es : List Expr} {c : Nat}

/-- What is known of an **expression that was closed** before it was quantized. -/
structure Quantized (S : NameScope) (nt : NumberType) (e : Expr) : Prop where
  wellFormed : e.WellFormed
  finiteCodings : e.HasFiniteCodings
  number?_eq_none : ∀ a ∈ e.subterms, a.op.number? = none
  /-- Every variable that is read is in scope. -/
  mem_names : ∀ a ∈ e.subterms, ∀ name format, a.op = .var name format → name ∈ S.names
  /-- Every function that is called is in scope and gets as many arguments as it takes. -/
  mem_functions : ∀ a ∈ e.subterms, ∀ name, a.op = .functionCall name →
    (name, a.operands.length) ∈ S.functions
  /-- Both backends have a form for everything, but C has none for vectors. -/
  not_isForeign : ∀ b : Source.Backend, (b = .c → nt.isVector = false) →
    ∀ a ∈ e.visited, b.isForeign a.op = false

/-- An operation that **may stand above** quantized expressions. -/
structure Joins (S : NameScope) (nt : NumberType) (op : Op) (operands : Nat) : Prop where
  arity : op.checkArity operands = .ok ()
  number?_eq_none : op.number? = none
  ne_fromBits : ∀ f, op ≠ .fromBits f
  ne_conversion : ∀ f, op ≠ .conversion f
  mem_names : ∀ name format, op = .var name format → name ∈ S.names
  mem_functions : ∀ name, op = .functionCall name → (name, operands) ∈ S.functions
  not_isForeign : ∀ b : Source.Backend, (b = .c → nt.isVector = false) → b.isForeign op = false

/-- What is admitted in a scope, but no number, may stand there. -/
theorem joins_of_admits {n : Nat} (hop : S.admits op n = true) (hnumber : op.number? = none) :
    Joins S nt op n := by
  refine ⟨NameScope.checkArity_of_admits hop, hnumber, ?_, ?_, ?_, ?_, fun b _ => ?_⟩
  · rintro f rfl
    cases hop
  · rintro f rfl
    cases hop
  · rintro name format rfl
    simp only [NameScope.admits, Bool.and_eq_true, List.contains_iff_mem] at hop
    exact hop.2
  · rintro name rfl
    simpa only [NameScope.admits, List.contains_iff_mem] using hop
  · cases op <;> simp_all [NameScope.admits, Source.Backend.isForeign, C.isOperation, Op.number?]

/-- A number may be spread over the lanes of a vector. -/
theorem joins_splat {f : Option ResultFormat} (hvector : nt.isVector = true) :
    Joins S nt (.splat f) 1 := by
  refine ⟨rfl, rfl, by simp, by simp, by simp, by simp, fun b hb => ?_⟩
  cases b with
  | native => rfl
  | c => cases hvector.symm.trans (hb rfl)

/-- **An operation on quantized expressions** is one. -/
theorem Quantized.node (hop : Joins S nt op es.length) (hes : ∀ e ∈ es, e.Quantized S nt) :
    (node op es).Quantized S nt := by
  refine ⟨?_, ⟨fun f operand ha => ?_, fun f operands ha => ?_⟩, fun a ha => ?_, fun a ha => ?_,
    fun a ha => ?_, fun b hb a ha => ?_⟩
  · exact wellFormed_node.mpr ⟨hop.arity, fun e he => (hes e he).wellFormed⟩
  · rcases mem_subterms_node.mp ha with heq | ⟨e, he, ha⟩
    · exact absurd (congrArg Expr.op heq).symm (hop.ne_fromBits f)
    · exact (hes e he).finiteCodings.fromBits f operand ha
  · rcases mem_subterms_node.mp ha with heq | ⟨e, he, ha⟩
    · exact absurd (congrArg Expr.op heq).symm (hop.ne_conversion f)
    · exact (hes e he).finiteCodings.conversion f operands ha
  · rcases mem_subterms_node.mp ha with rfl | ⟨e, he, ha⟩
    · exact hop.number?_eq_none
    · exact (hes e he).number?_eq_none a ha
  · rcases mem_subterms_node.mp ha with rfl | ⟨e, he, ha⟩
    · exact hop.mem_names
    · exact (hes e he).mem_names a ha
  · rcases mem_subterms_node.mp ha with rfl | ⟨e, he, ha⟩
    · exact hop.mem_functions
    · exact (hes e he).mem_functions a ha
  · rw [visited_node hop.ne_fromBits] at ha
    rcases List.mem_cons.mp ha with rfl | ha
    · exact hop.not_isForeign b hb
    · obtain ⟨e, he, ha⟩ := mem_visitedAll.mp ha
      exact (hes e he).not_isForeign b hb a ha

/-- The bits of a finite number, taken as a number. -/
theorem quantized_fromBits {v : Rat} (hc : nt.precision.format.decode? c = some v) :
    (node (.fromBits nt.formatAttribute) [node (.bitPattern c) []]).Quantized S nt := by
  have hsubterms : ∀ a ∈ (node (.fromBits nt.formatAttribute) [node (.bitPattern c) []]).subterms,
      a = node (.fromBits nt.formatAttribute) [node (.bitPattern c) []] ∨
        a = node (.bitPattern c) [] := by
    simp [subterms, subtermsAll]
  refine ⟨rfl, ⟨fun f operand ha => ?_, fun f operands ha => ?_⟩, fun a ha => ?_,
    fun a ha name format hop => ?_, fun a ha name hop => ?_, fun b _ a ha => ?_⟩
  · rcases hsubterms _ ha with heq | heq
    · cases heq
      exact ⟨nt.precision, c, v, rfl, rfl, hc⟩
    · cases heq
  · rcases hsubterms _ ha with heq | heq <;> cases heq
  · rcases hsubterms a ha with rfl | rfl <;> rfl
  · rcases hsubterms a ha with rfl | rfl <;> cases hop
  · rcases hsubterms a ha with rfl | rfl <;> cases hop
  · obtain rfl := List.mem_singleton.mp ha
    cases b <;> rfl

/-- The expression of a coding of a finite number. -/
theorem quantized_literal {v : Rat} (hc : nt.precision.format.decode? c = some v) :
    (nt.literal c).Quantized S nt := by
  have hscalar := quantized_fromBits (S := S) hc
  rw [NumberType.literal]
  by_cases hvector : nt.isVector = true
  · rw [if_pos hvector]
    exact .node (joins_splat hvector) (List.forall_mem_singleton.mpr hscalar)
  · rw [if_neg hvector]
    exact hscalar

/-- **A closed expression, after it was quantized.** -/
theorem quantized_coded (he : e.isClosed S = true) (hcodable : e.Codable nt) :
    (e.coded nt).Quantized S nt := by
  induction e with
  | node op es ih =>
    obtain ⟨hop, hes⟩ := isClosed_node.mp he
    obtain ⟨hroot, hcodables⟩ := codable_node.mp hcodable
    cases hnumber : op.number? with
    | none =>
      rw [coded_of_number?_eq_none hnumber]
      refine .node (joins_of_admits (by rwa [List.length_map]) hnumber) fun e' he' => ?_
      obtain ⟨e, he, rfl⟩ := List.mem_map.mp he'
      exact ih e he (hes e he) (hcodables e he)
    | some n =>
      obtain ⟨v, c, rfl, hc⟩ := hroot n hnumber
      have hcoding := NumberType.coding?_of_codingOutcome hc
      rw [coded_of_number?_eq_some hnumber hcoding]
      obtain ⟨q, -, hq⟩ := NumberType.coding?_eq_some_iff.mp hcoding
      exact quantized_literal (Format.decode?_of_encode? hq)

/-! ### Quantized statements -/

/-- The variable to which a statement assigns. -/
def assigned? : Expr → Option String
  | node .assignment [node (.var name _) [], _] => some name
  | _ => none

/-- What a statement **evaluates**: the target of an assignment is not read. -/
def evaluated : Expr → Expr
  | node .assignment [_, e] => e
  | e => e

/-- The statements of a body that was closed are **assignments and one result**, of quantized
expressions or of several at once. -/
inductive QuantizedStatement (S : NameScope) (nt : NumberType) : Expr → Prop
  | assignment {name : String} {format : Option ResultFormat} {e : Expr} (he : e.Quantized S nt) :
      QuantizedStatement S nt (node .assignment [node (.var name format) [], e])
  | result {e : Expr} (he : e.Quantized S nt) : QuantizedStatement S nt (node .result [e])
  | results {es : List Expr} (hes : ∀ e ∈ es, e.Quantized S nt) :
      QuantizedStatement S nt (node .result [node .tuple es])

/-- **The statements of a closed body**, after they were quantized: each is in a scope that has
grown by the assignments before it. -/
theorem ClosedBody.quantizedStatement {statements pre post : List Expr}
    (h : ClosedBody S statements) (hcodable : ∀ e ∈ statements, e.Codable nt)
    (hsplit : statements.map (coded nt) = pre ++ e :: post) :
    ∃ T : NameScope, (∀ name ∈ T.names, name ∈ S.names ∨ ∃ a ∈ pre, a.assigned? = some name) ∧
      T.functions = S.functions ∧ e.QuantizedStatement T nt := by
  induction h generalizing pre with
  | @result S value he =>
    have hvalue := (codable_node.mp (hcodable _ List.mem_cons_self)).2 value List.mem_cons_self
    rw [List.map_cons, coded_of_number?_eq_none rfl, List.map_nil, List.singleton_eq_append_iff]
      at hsplit
    obtain ⟨rfl, hsplit⟩ | ⟨-, hsplit⟩ := hsplit
    · cases hsplit
      exact ⟨S, fun name hname => .inl hname, rfl, .result (quantized_coded he hvalue)⟩
    · cases hsplit
  | @results S es hes =>
    have htuple := (codable_node.mp (hcodable _ List.mem_cons_self)).2 _ List.mem_cons_self
    rw [List.map_cons, coded_of_number?_eq_none rfl, List.map_cons, coded_of_number?_eq_none rfl,
      List.map_nil, List.singleton_eq_append_iff] at hsplit
    obtain ⟨rfl, hsplit⟩ | ⟨-, hsplit⟩ := hsplit
    · cases hsplit
      refine ⟨S, fun name hname => .inl hname, rfl, .results (List.forall_mem_map.mpr ?_)⟩
      exact fun e he => quantized_coded (hes e he) ((codable_node.mp htuple).2 e he)
    · cases hsplit
  | @assignment S name format value rest he _ ih =>
    have hvalue := (codable_node.mp (hcodable _ List.mem_cons_self)).2 value (by simp)
    have hvar : (node (.var name format) []).coded nt = node (.var name format) [] :=
      coded_of_number?_eq_none rfl
    rw [List.map_cons, coded_of_number?_eq_none rfl, List.map_cons, hvar] at hsplit
    cases pre with
    | nil =>
      cases hsplit
      exact ⟨S, fun name hname => .inl hname, rfl, .assignment (quantized_coded he hvalue)⟩
    | cons first pre =>
      rw [List.cons_append] at hsplit
      obtain ⟨rfl, hrest⟩ := List.cons.inj hsplit
      obtain ⟨T, hT, hfunctions, hstatement⟩ :=
        ih (fun e he => hcodable e (List.mem_cons_of_mem _ he)) hrest
      refine ⟨T, fun n hn => ?_, hfunctions, hstatement⟩
      rcases hT n hn with hbound | ⟨a, ha, hassigned⟩
      · rcases List.mem_cons.mp hbound with rfl | hbound
        · exact .inr ⟨_, List.mem_cons_self, rfl⟩
        · exact .inl hbound
      · exact .inr ⟨a, List.mem_cons_of_mem _ ha, hassigned⟩

namespace QuantizedStatement

/-- Such statements are flat. -/
theorem op_ne_statement (h : QuantizedStatement S nt e) : e.op ≠ .statement := by
  cases h <;> nofun

/-- What stands in a statement stands in a quantized expression, or it is neither a number nor a
call. -/
theorem mem_subterms (h : QuantizedStatement S nt e) (ha : a ∈ e.subterms) :
    (∃ value : Expr, value.Quantized S nt ∧ a ∈ value.subterms) ∨
      a.op.number? = none ∧ ∀ name, a.op ≠ .functionCall name := by
  cases h with
  | @assignment name format value hvalue =>
    rcases mem_subterms_node.mp ha with rfl | ⟨operand, hoperand, hmem⟩
    · exact .inr ⟨rfl, nofun⟩
    rcases List.mem_pair.mp hoperand with rfl | rfl
    · obtain rfl | ⟨_, hnil, -⟩ := mem_subterms_node.mp hmem
      · exact .inr ⟨rfl, nofun⟩
      · cases hnil
    · exact .inl ⟨_, hvalue, hmem⟩
  | @result value hvalue =>
    rcases mem_subterms_node.mp ha with rfl | ⟨operand, hoperand, hmem⟩
    · exact .inr ⟨rfl, nofun⟩
    · exact .inl ⟨_, hvalue, List.mem_singleton.mp hoperand ▸ hmem⟩
  | @results values hvalues =>
    rcases mem_subterms_node.mp ha with rfl | ⟨operand, hoperand, hmem⟩
    · exact .inr ⟨rfl, nofun⟩
    rw [List.mem_singleton.mp hoperand] at hmem
    rcases mem_subterms_node.mp hmem with rfl | ⟨value, hvalue, hmem⟩
    · exact .inr ⟨rfl, nofun⟩
    · exact .inl ⟨value, hvalues value hvalue, hmem⟩

/-- A statement holds **no number** but codings. -/
theorem number?_eq_none (h : QuantizedStatement S nt e) (ha : a ∈ e.subterms) :
    a.op.number? = none := by
  rcases h.mem_subterms ha with ⟨value, hvalue, ha⟩ | ⟨hnumber, -⟩
  · exact hvalue.number?_eq_none a ha
  · exact hnumber

/-- A statement **calls** functions in scope, with as many arguments as they take. -/
theorem mem_functions {name : String} (h : QuantizedStatement S nt e) (ha : a ∈ e.subterms)
    (hop : a.op = .functionCall name) : (name, a.operands.length) ∈ S.functions := by
  rcases h.mem_subterms ha with ⟨value, hvalue, ha⟩ | ⟨-, hcall⟩
  · exact hvalue.mem_functions a ha name hop
  · exact absurd hop (hcall name)

/-- A statement **reads** variables in scope. -/
theorem mem_names {name : String} {format : Option ResultFormat}
    (h : QuantizedStatement S nt e) (ha : a ∈ e.evaluated.subterms)
    (hop : a.op = .var name format) : name ∈ S.names := by
  cases h with
  | assignment hvalue => exact hvalue.mem_names a ha name format hop
  | @result value hvalue =>
    rcases mem_subterms_node.mp ha with rfl | ⟨operand, hoperand, hmem⟩
    · cases hop
    · exact hvalue.mem_names a (List.mem_singleton.mp hoperand ▸ hmem) name format hop
  | @results values hvalues =>
    rcases mem_subterms_node.mp ha with rfl | ⟨operand, hoperand, hmem⟩
    · cases hop
    rw [List.mem_singleton.mp hoperand] at hmem
    rcases mem_subterms_node.mp hmem with rfl | ⟨value, hvalue, hmem⟩
    · cases hop
    · exact (hvalues value hvalue).mem_names a hmem name format hop

/-- A statement is an **assignment to a variable or a result**. -/
theorem shape (h : QuantizedStatement S nt e) : e.assigned?.isSome ∨ e.op = .result := by
  cases h with
  | assignment => exact .inl rfl
  | _ => exact .inr rfl

end QuantizedStatement

end Expr

end Elementary
