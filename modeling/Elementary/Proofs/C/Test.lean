import Elementary.Proofs.C.Declaration
import Elementary.Proofs.C.Reading
import Elementary.Proofs.TestCase.Trial

/-!
# The tests of a C program

What a test of a program does, with all that it reaches outside of itself left open: the types, the
literals, and the functions of the library and of the program. A test computes in blocks. A
declaration hides what bears its name in the blocks around it, from its own value on, and no block
declares a name twice.

## Main definitions

* `Interpretation`: what the literals, the types and the functions of a program stand for.
* `Term.denote`, `TestStatement.run`, `TestFunction.run`: the meaning of tests.
* `TestFunction.text`: how a test is written.
* `Term.names`: the names that stand in a term.

## Main results

* `Term.denote_congr`: a term depends on the names that stand in it.
* `names_lower`: the names that stand in the term of an expression.
-/

namespace Elementary.C

open Source (indentation reindent)

/-! ### The meaning of tests -/

/-- **What literals, types and functions stand for**, as far as tests use them. No function changes
a variable of the test. -/
structure Interpretation (Obj : Type) where
  literal (digits : String) : Obj
  integer : Int → Obj
  convert (type : String) (operand : Obj) : Except Failure Obj
  call (function : String) (arguments : List Obj) : Except Failure Obj
  negate : Obj → Except Failure Obj
  binary (operator : String) : Obj → Obj → Except Failure Obj
  /-- The value of a choice, which brings the branches to one type and takes one of them. -/
  choose (condition : Obj) (ifTrue ifFalse : Except Failure Obj) : Except Failure Obj
  isTrue : Obj → Except Failure Bool
  member (operand : Obj) (label : String) : Except Failure Obj

/-- A **variable** with its type, and its value once it has one. -/
structure Variable (Obj : Type) where
  type : String
  value : Option Obj

/-- The **variables that are declared**, those of inner blocks and later declarations first. -/
abbrev Variables (Obj : Type) : Type := List (String × Variable Obj)

variable {Obj : Type}

namespace Variables

/-- The variable of a name: of several, the innermost. -/
def find? (env : Variables Obj) (name : String) : Option (Variable Obj) := List.lookup name env

@[simp]
theorem find?_nil (name : String) : find? ([] : Variables Obj) name = none := rfl

@[simp]
theorem find?_cons (id : String) (x : Variable Obj) (env : Variables Obj) (name : String) :
    find? ((id, x) :: env) name = if name = id then some x else env.find? name := by
  rw [find?, List.lookup_cons]
  by_cases h : name = id
  · rw [if_pos h, beq_iff_eq.mpr h]
  · rw [if_neg h, beq_eq_false_iff_ne.mpr h]
    rfl

/-- Names without a variable are not found. -/
theorem find?_eq_none {env : Variables Obj} {name : String} (h : name ∉ env.map Prod.fst) :
    env.find? name = none := by
  induction env with
  | nil => rfl
  | cons x env ih =>
    rw [List.map_cons, List.mem_cons, not_or] at h
    rw [find?_cons, if_neg h.1, ih h.2]

/-- The variables after the innermost one of a name was **given a value**. -/
def assign (name : String) (v : Obj) : Variables Obj → Variables Obj
  | [] => []
  | (id, x) :: env =>
    if id = name then (id, { x with value := some v }) :: env else (id, x) :: assign name v env

end Variables

namespace Term

mutual

/-- **What a term stands for** where some names are declared. A declared name is no function and no
type. -/
def denote (I : Interpretation Obj) (declared : String → Option (Variable Obj)) :
    Term → Except Failure Obj
  | identifier name =>
    match declared name with
    | some ⟨_, some v⟩ => .ok v
    | _ => .error (.unboundVariable name)
  | literal digits => .ok (I.literal digits)
  | call function arguments => do
    let values ← denoteAll I declared arguments
    if (declared function).isNone then I.call function values
    else .error (.wrongKind (function ++ " is no function"))
  | negation operand => do I.negate (← denote I declared operand)
  | binary operator left right => do
    I.binary operator (← denote I declared left) (← denote I declared right)
  | conditional condition ifTrue ifFalse => do
    I.choose (← denote I declared condition) (denote I declared ifTrue) (denote I declared ifFalse)
  | cast type operand => do
    let v ← denote I declared operand
    if (declared type).isNone then I.convert type v
    else .error (.wrongKind (type ++ " is no type"))
  | member operand label => do I.member (← denote I declared operand) label
  | parenthesized inner => denote I declared inner

/-- What some terms stand for, from left to right. -/
def denoteAll (I : Interpretation Obj) (declared : String → Option (Variable Obj)) :
    List Term → Except Failure (List Obj)
  | [] => .ok []
  | t :: ts => do return (← denote I declared t) :: (← denoteAll I declared ts)

end

mutual

/-- The **names** that stand in a term: of variables, functions and types. -/
def names : Term → List String
  | identifier name => [name]
  | literal _ => []
  | call function arguments => function :: namesAll arguments
  | negation operand | member operand _ | parenthesized operand => names operand
  | binary _ left right => names left ++ names right
  | conditional condition ifTrue ifFalse => names condition ++ names ifTrue ++ names ifFalse
  | cast type operand => type :: names operand

/-- The names that stand in some terms. -/
def namesAll : List Term → List String
  | [] => []
  | t :: ts => names t ++ namesAll ts

end

/-- Whether one of some conditions holds; those behind it are not evaluated. -/
def anyTrue (I : Interpretation Obj) (declared : String → Option (Variable Obj)) :
    List Term → Except Failure Bool
  | [] => .ok false
  | t :: ts => do
    if ← I.isTrue (← t.denote I declared) then return true else anyTrue I declared ts

end Term

/-- A **statement of a test**. -/
inductive TestStatement where
  | declaration (type name : String) (value : Term)
  /-- An assignment that is made when one of some conditions holds. -/
  | update (disjuncts : List Term) (name : String) (value : Term)
  /-- A loop over the numbers from zero up to a bound, in a variable of its own. -/
  | loop (counter : String) (count : Int) (body : List TestStatement)

/-- A **test**: a function without arguments that ends with its result. -/
structure TestFunction where
  name : String
  body : List TestStatement
  result : Term

namespace TestStatement

/-- The name that a statement declares in its block. -/
def declared? : TestStatement → Option String
  | declaration _ name _ => some name
  | _ => none

mutual

/-- Whether **no block in a statement** declares a name twice. -/
def isDistinct : TestStatement → Bool
  | declaration _ _ _ | update _ _ _ => true
  | loop _ _ body => decide (body.filterMap declared?).Nodup && allDistinct body

/-- Whether no block in some statements does. -/
def allDistinct : List TestStatement → Bool
  | [] => true
  | s :: ss => isDistinct s && allDistinct ss

end

/-- Whether neither a block **nor any block in it** declares a name twice. -/
def isBlock (body : List TestStatement) : Bool :=
  decide (body.filterMap declared?).Nodup && allDistinct body

mutual

/-- **What a statement does** to the declared variables. A declared name is visible in its own
value, and has none there. A loop leaves the variables that were declared before it. -/
def run (I : Interpretation Obj) : TestStatement → Variables Obj → Except Failure (Variables Obj)
  | declaration type name value, env => do
    let v ← value.denote I (Variables.find? ((name, ⟨type, none⟩) :: env))
    return (name, ⟨type, some (← I.convert type v)⟩) :: env
  | update disjuncts name value, env => do
    if ← Term.anyTrue I env.find? disjuncts then
      match env.find? name with
      | some x => do
        let v ← I.convert x.type (← value.denote I env.find?)
        return env.assign name v
      | none => .error (.unboundVariable name)
    else return env
  | loop counter count body, env =>
    -- the statements of a body assign no counter, so every round finds the number of the round
    (List.range count.toNat).foldlM (fun env (k : Nat) => do
      let inner ← runAll I body ((counter, ⟨"int", some (I.integer k)⟩) :: env)
      return inner.drop (inner.length - env.length)) env

/-- What some statements do, one after the other. -/
def runAll (I : Interpretation Obj) :
    List TestStatement → Variables Obj → Except Failure (Variables Obj)
  | [], env => .ok env
  | s :: ss, env => do runAll I ss (← run I s env)

end

mutual

/-- How a statement is **written** at a level of indentation. -/
def text (level : Nat) : TestStatement → List Char
  | declaration type name value => lineAt level (type ++ " " ++ name ++ " = " ++ value.text ++ ";")
  | update disjuncts name value =>
    lineAt level ("if (" ++ " || ".intercalate (disjuncts.map Term.text) ++ ") " ++ name ++ " = " ++
      value.text ++ ";")
  | loop counter count body =>
    indentation level ++ reindent level ("for (int " ++ counter ++ " = 0; " ++ counter ++ " < " ++
      toString count ++ "; ++" ++ counter ++ ") ").toList ++ "\x7b\n".toList ++
      texts (level + 1) body ++ (indentation level ++ "\x7d\n".toList)

/-- How some statements are written. -/
def texts (level : Nat) : List TestStatement → List Char
  | [] => []
  | s :: ss => text level s ++ texts level ss

end

end TestStatement

namespace TestFunction

/-- **The run of a test** gives its result. A block that declares a name twice is no program. -/
def run (I : Interpretation Obj) (f : TestFunction) : Except Failure Obj := do
  if TestStatement.isBlock f.body then
    let env ← TestStatement.runAll I f.body []
    f.result.denote I env.find?
  else .error (.wrongKind (f.name ++ " declares a name twice"))

/-- How a test is **written**. -/
def text (f : TestFunction) : List Char :=
  reindent 0 ("int test_" ++ f.name ++ "(void) ").toList ++ "\x7b\n".toList ++
    TestStatement.texts 1 f.body ++ lineAt 1 ("return " ++ f.result.text ++ ";") ++ "\x7d\n".toList

end TestFunction

/-! ### Terms depend on their names -/

section Congruence

variable {I : Interpretation Obj} {declared declared' : String → Option (Variable Obj)}

namespace Term

mutual

/-- **A term depends on the names** that stand in it. -/
theorem denote_congr : (t : Term) → (∀ id ∈ t.names, declared id = declared' id) →
    t.denote I declared = t.denote I declared'
  | identifier name, h => by rw [denote, denote, h name List.mem_cons_self]
  | literal _, _ => rfl
  | call function arguments, h => by
    obtain ⟨hfunction, harguments⟩ := List.forall_mem_cons.mp h
    rw [denote, denote, hfunction, denoteAll_congr arguments harguments]
  | negation operand, h | member operand _, h | parenthesized operand, h => by
    rw [denote, denote, denote_congr operand h]
  | binary _ left right, h => by
    obtain ⟨hleft, hright⟩ := List.forall_mem_append.mp h
    rw [denote, denote, denote_congr left hleft, denote_congr right hright]
  | conditional condition ifTrue ifFalse, h => by
    obtain ⟨hconditions, hfalse⟩ := List.forall_mem_append.mp h
    obtain ⟨hcondition, htrue⟩ := List.forall_mem_append.mp hconditions
    rw [denote, denote, denote_congr condition hcondition, denote_congr ifTrue htrue,
      denote_congr ifFalse hfalse]
  | cast type operand, h => by
    obtain ⟨htype, hoperand⟩ := List.forall_mem_cons.mp h
    rw [denote, denote, htype, denote_congr operand hoperand]

theorem denoteAll_congr : (ts : List Term) → (∀ id ∈ namesAll ts, declared id = declared' id) →
    denoteAll I declared ts = denoteAll I declared' ts
  | [], _ => rfl
  | t :: ts, h => by
    obtain ⟨hfirst, hrest⟩ := List.forall_mem_append.mp h
    rw [denoteAll, denoteAll, denote_congr t hfirst, denoteAll_congr ts hrest]

end

theorem anyTrue_congr {ts : List Term} (h : ∀ id ∈ namesAll ts, declared id = declared' id) :
    anyTrue I declared ts = anyTrue I declared' ts := by
  induction ts with
  | nil => rfl
  | cons t ts ih =>
    obtain ⟨hfirst, hrest⟩ := List.forall_mem_append.mp h
    rw [anyTrue, anyTrue, denote_congr t hfirst, ih hrest]

end Term

end Congruence

/-! ### The names in the term of an expression -/

/-- The names of types in tests. -/
def typeNames : List String :=
  ["f32", "f64", "float", "double", "int", "long long", "long double"]

section Lowering

variable {p q : Precision} {suffix : String} {op : Op} {e : Expr} {t : Term} {ts : List Term}
  {id : String}

/-- A function of the library with a suffix is one that the backend writes. -/
theorem append_suffix_mem_emittedNames {f : String}
    (hf : f ∈ ["fabs", "rint", "floor", "ldexp", "logb", "scalbn", "ilogb"]) (suffix : String) :
    f ++ suffix ∈ emittedNames suffix :=
  List.mem_append_left _ (List.mem_append_right _ (List.mem_map_of_mem hf))

/-- A function of the library that stands for a mathematical function is one that the backend
writes. -/
theorem libraryFunction_mem_emittedNames {name function : String}
    (h : libraryFunction? name = some function) (suffix : String) :
    function ++ widestSuffix ∈ emittedNames suffix := by
  have hname : name ∈ Source.libraryNames := by
    rw [← List.contains_iff_mem, ← libraryFunction?_isSome, h]
    rfl
  exact List.mem_append_right _ (List.mem_filterMap.mpr ⟨name, hname, by rw [h]; rfl⟩)

/-- The names in **the form of an operation** come from its operands, but for that of a function. -/
theorem names_operation (h : operation suffix op ts = .ok t) (hid : id ∈ t.names) :
    id ∈ emittedNames suffix ++ typeNames ∨ op = .functionCall id ∨ id ∈ Term.namesAll ts := by
  obtain ⟨hint, hlong⟩ : "int" ∈ typeNames ∧ "long long" ∈ typeNames := by decide
  have hmultiply : "mul_add" ∈ emittedNames suffix :=
    List.mem_append_left _ (List.mem_append_left _ (by decide))
  have hlibrary : ∀ f ∈ ["fabs", "rint", "floor", "ldexp", "logb", "scalbn", "ilogb"],
      f ++ suffix ∈ emittedNames suffix := fun f hf => append_suffix_mem_emittedNames hf suffix
  simp only [List.forall_mem_cons] at hlibrary
  rw [List.mem_append]
  rw [operation.eq_def] at h
  split at h
  case h_13 =>
    split at h <;> cases h
    exact .inr (.inr (by simpa [infixTerm, Term.names, Term.namesAll] using hid))
  case h_14 => cases h
  all_goals
    cases h
    simp only [infixTerm, one, Term.names, Term.namesAll, List.mem_append, List.mem_cons,
      List.not_mem_nil, or_false, false_or] at hid ⊢
    grind

/-- The names in **a constant** are those of functions. -/
theorem names_constant {c : Int} {f : Option ResultFormat} (h : constant p c f = .ok t)
    (hid : id ∈ t.names) : id = "from_bits" := by
  rw [constant.eq_def] at h
  split at h
  · split at h
    · cases h
      rw [codingLiteral] at hid
      split at hid <;> simpa [Term.names, Term.namesAll] using hid
    · split at h
      · cases h
        rw [Term.signed] at hid
        split at hid <;> cases hid
      · cases h
  · cases h

theorem namesAll_eq_flatMap (ts : List Term) : Term.namesAll ts = ts.flatMap Term.names := by
  induction ts with
  | nil => rfl
  | cons t ts ih => rw [Term.namesAll, ih, List.flatMap_cons]

/-- The names in **the term of an expression** are those that the backend writes, and those that the
expression mentions. -/
theorem names_lower (hwf : e.WellFormed) (hcodings : e.HasFiniteCodings)
    (h : lower p suffix e = .ok t) (hid : id ∈ t.names) :
    id ∈ emittedNames suffix ++ typeNames ∨ e.Mentions id := by
  induction e generalizing t with
  | node op es ih =>
    have hoperand {e : Expr} (he : e ∈ es) {u : Term} (hu : lower p suffix e = .ok u)
        (hid : id ∈ u.names) :
        id ∈ emittedNames suffix ++ typeNames ∨ (Expr.node op es).Mentions id :=
      (ih e he (hwf.of_mem he) (hcodings.of_mem he) hu hid).imp_right (·.of_mem he)
    have hoperands {ts : List Term} (hts : lowerAll p suffix es = .ok ts)
        (hid : id ∈ Term.namesAll ts) :
        id ∈ emittedNames suffix ++ typeNames ∨ (Expr.node op es).Mentions id := by
      rw [namesAll_eq_flatMap] at hid
      obtain ⟨u, hu, hid⟩ := List.mem_flatMap.mp hid
      obtain ⟨e, he, hlower⟩ :=
        exists_mem_of_mem_result (lowerAll_eq_mapM p suffix es ▸ hts) hu
      exact hoperand he hlower hid
    have hoperation (h : lowerAll p suffix es >>= operation suffix op = .ok t) :
        id ∈ emittedNames suffix ++ typeNames ∨ (Expr.node op es).Mentions id := by
      obtain ⟨ts, hts, ht⟩ := bind_eq_ok.mp h
      rcases names_operation ht hid with hemitted | hcall | hid
      · exact .inl hemitted
      · exact .inr ⟨_, Expr.self_mem_subterms _, .inr hcall⟩
      · exact hoperands hts hid
    cases op with
    | constant | mathConstant | bitPattern | splat | tuple | assignment | result | statement
    | custom => cases h
    | var name f =>
      obtain rfl : Term.identifier name = t := Except.ok.inj h
      obtain rfl := List.mem_singleton.mp hid
      exact .inr ⟨_, Expr.self_mem_subterms _, .inl ⟨f, rfl⟩⟩
    | fromBits f =>
      obtain ⟨operand, rfl⟩ := hwf.exists_operand rfl
      obtain ⟨c, -, hterm⟩ := bind_eq_ok.mp h
      obtain rfl := names_constant hterm hid
      exact .inl (List.mem_append_left _ <| List.mem_append_left _ <| List.mem_append_left _ <| by
        decide)
    | conversion f =>
      obtain ⟨operand, rfl⟩ := hwf.exists_operand rfl
      obtain ⟨q, rfl⟩ := hcodings.conversion f _ (Expr.self_mem_subterms _)
      obtain ⟨type, u, htype, hu, rfl⟩ := lower_conversion_eq_ok h
      cases htype
      rcases List.mem_cons.mp hid with rfl | hid
      · exact .inl (List.mem_append_right _ (by cases q <;> decide))
      · exact hoperand List.mem_cons_self hu hid
    | mathFunction name =>
      obtain ⟨function, ts, hfunction, hts, rfl⟩ := lower_mathFunction_eq_ok h
      rcases List.mem_cons.mp hid with rfl | hid
      · exact .inl (List.mem_append_left _ (libraryFunction_mem_emittedNames hfunction suffix))
      · exact hoperands hts hid
    | _ => exact hoperation h

end Lowering

end Elementary.C
