import Elementary.Proofs.Native.Semantics
import Elementary.Proofs.TestCase.Trial

/-!
# The tests of a Python module

What a test of a module does, with all that it reaches outside of itself left open: the library, the
functions of the module, and the functions that are built into the language. Names that a function
assigns anywhere belong to it everywhere, so a test reaches nothing in the module that bears the
name of one of its own variables.

## Main definitions

* `Interpretation`: what the names and the operations of a module stand for.
* `Term.denote`, `Statement.run`, `Definition.runTest`: the meaning of tests.
* `Term.names`: the names that stand in a term.

## Main results

* `Term.denote_congr`: a term depends on the names that stand in it.
* `names_lower`: the names that stand in the term of an expression.
-/

namespace Elementary.Native

open Function (update)

/-! ### The meaning of tests -/

/-- **What the names and the operations of a module stand for**, as far as tests use them. No
operation changes an object that a variable holds. -/
structure Interpretation (Obj : Type) where
  /-- The objects of the module, and those that are built into the language. -/
  global (name : String) : Except Failure Obj
  integer : Int → Obj
  float : Datum → Obj
  string : String → Obj
  truth : Bool → Obj
  field (operand : Obj) (label : String) : Except Failure Obj
  call (function : Obj) (arguments : List Obj) : Except Failure Obj
  negate : Obj → Except Failure Obj
  binary : Operator → Obj → Obj → Except Failure Obj
  compare : Relation → Obj → Obj → Except Failure Obj
  isTrue : Obj → Except Failure Bool
  tuple : List Obj → Obj
  component : Obj → Int → Except Failure Obj
  /-- What a loop runs over. -/
  elements : Obj → Except Failure (List Obj)

/-- The **variables** of a running function. -/
abbrev Variables (Obj : Type) : Type := String → Option Obj

variable {Obj : Type}

namespace Interpretation

/-- **The value of a name** in a function. A name that is the function's own has no value before it
is assigned, whatever the module holds under it. -/
def lookup (I : Interpretation Obj) (own : List String) (env : Variables Obj)
    (name : String) : Except Failure Obj :=
  if name ∈ own then
    match env name with
    | some v => .ok v
    | none => .error (.unboundVariable name)
  else I.global name

/-- The value of a name where **just these variables** are. -/
def within (I : Interpretation Obj) (bindings : List (String × Obj)) :
    String → Except Failure Obj :=
  I.lookup (bindings.map Prod.fst) fun name => bindings.lookup name

end Interpretation

namespace Term

mutual

/-- **What a term stands for** when its names have some values. -/
def denote (I : Interpretation Obj) (value : String → Except Failure Obj) :
    Term → Except Failure Obj
  | name id => value id
  | integer n => .ok (I.integer n)
  | float x => .ok (I.float x)
  | string s => .ok (I.string s)
  | truth b => .ok (I.truth b)
  | field operand label => do I.field (← denote I value operand) label
  | call function arguments => do
    I.call (← denote I value function) (← denoteAll I value arguments)
  | negation operand => do I.negate (← denote I value operand)
  | binary operator left right => do
    I.binary operator (← denote I value left) (← denote I value right)
  | comparison relation left right => do
    I.compare relation (← denote I value left) (← denote I value right)
  | conditional condition ifTrue ifFalse => do
    if ← I.isTrue (← denote I value condition) then denote I value ifTrue
    else denote I value ifFalse
  | tuple components => do return I.tuple (← denoteAll I value components)
  | component operand index => do I.component (← denote I value operand) index

/-- What some terms stand for, from left to right. -/
def denoteAll (I : Interpretation Obj) (value : String → Except Failure Obj) :
    List Term → Except Failure (List Obj)
  | [] => .ok []
  | t :: ts => do return (← denote I value t) :: (← denoteAll I value ts)

end

mutual

/-- The **names** that stand in a term. -/
def names : Term → List String
  | name id => [id]
  | integer _ | float _ | string _ | truth _ => []
  | field operand _ | negation operand | component operand _ => names operand
  | call function arguments => names function ++ namesAll arguments
  | binary _ left right | comparison _ left right => names left ++ names right
  | conditional condition ifTrue ifFalse => names condition ++ names ifTrue ++ names ifFalse
  | tuple components => namesAll components

/-- The names that stand in some terms. -/
def namesAll : List Term → List String
  | [] => []
  | t :: ts => names t ++ namesAll ts

end

/-- Whether one of some conditions holds; those behind it are not evaluated. -/
def anyTrue (I : Interpretation Obj) (value : String → Except Failure Obj) :
    List Term → Except Failure Bool
  | [] => .ok false
  | t :: ts => do if ← I.isTrue (← t.denote I value) then return true else anyTrue I value ts

end Term

namespace Statement

mutual

/-- The names that a statement **assigns**. -/
def assigned : Statement → List String
  | assignment name _ => [name]
  | result _ | assertion _ _ => []
  | loop sample _ body => sample :: assignedAll body
  | conditional _ body => assignedAll body

/-- The names that some statements assign. -/
def assignedAll : List Statement → List String
  | [] => []
  | s :: ss => assigned s ++ assignedAll ss

end

mutual

/-- **What a statement does** to the variables of a function with some names of its own. Tests have
no results. -/
def run (I : Interpretation Obj) (own : List String) :
    Statement → Variables Obj → Except Failure (Variables Obj)
  | assignment name value, env => do
    return update env name (some (← value.denote I (I.lookup own env)))
  | result _, _ => .error (.wrongKind "a test has no result")
  | loop sample sequence body, env => do
    let elements ← I.elements (← sequence.denote I (I.lookup own env))
    elements.foldlM (fun env x => runAll I own body (update env sample (some x))) env
  | conditional disjuncts body, env => do
    if ← Term.anyTrue I (I.lookup own env) disjuncts then runAll I own body env
    else return env
  | assertion condition _, env => do
    if ← I.isTrue (← condition.denote I (I.lookup own env)) then return env
    else .error .requirement

/-- What some statements do, one after the other. -/
def runAll (I : Interpretation Obj) (own : List String) :
    List Statement → Variables Obj → Except Failure (Variables Obj)
  | [], env => .ok env
  | s :: ss, env => do runAll I own ss (← run I own s env)

end

end Statement

/-- The names that are **a function's own**: its parameters, and what it assigns anywhere. -/
def Definition.own (d : Definition) : List String := d.parameters ++ Statement.assignedAll d.body

/-- **The run of a test**: it ends without a value, or it fails. -/
def Definition.runTest (I : Interpretation Obj) (d : Definition) : Except Failure Unit := do
  let _ ← Statement.runAll I d.own d.body fun _ => none
  return ()

/-! ### Terms depend on their names -/

section Congruence

variable {I : Interpretation Obj} {value value' : String → Except Failure Obj}

namespace Term

mutual

/-- **A term depends on the names** that stand in it. -/
theorem denote_congr : (t : Term) → (∀ id ∈ t.names, value id = value' id) →
    t.denote I value = t.denote I value'
  | name id, h => h id List.mem_cons_self
  | integer _, _ | float _, _ | string _, _ | truth _, _ => rfl
  | field operand _, h | negation operand, h | component operand _, h => by
    rw [denote, denote, denote_congr operand h]
  | call function arguments, h => by
    obtain ⟨hfunction, harguments⟩ := List.forall_mem_append.mp h
    rw [denote, denote, denote_congr function hfunction, denoteAll_congr arguments harguments]
  | binary _ left right, h | comparison _ left right, h => by
    obtain ⟨hleft, hright⟩ := List.forall_mem_append.mp h
    rw [denote, denote, denote_congr left hleft, denote_congr right hright]
  | conditional condition ifTrue ifFalse, h => by
    obtain ⟨hconditions, hfalse⟩ := List.forall_mem_append.mp h
    obtain ⟨hcondition, htrue⟩ := List.forall_mem_append.mp hconditions
    rw [denote, denote, denote_congr condition hcondition, denote_congr ifTrue htrue,
      denote_congr ifFalse hfalse]
  | tuple components, h => by rw [denote, denote, denoteAll_congr components h]

theorem denoteAll_congr : (ts : List Term) → (∀ id ∈ namesAll ts, value id = value' id) →
    denoteAll I value ts = denoteAll I value' ts
  | [], _ => rfl
  | t :: ts, h => by
    obtain ⟨hfirst, hrest⟩ := List.forall_mem_append.mp h
    rw [denoteAll, denoteAll, denote_congr t hfirst, denoteAll_congr ts hrest]

end

theorem anyTrue_congr {ts : List Term} (h : ∀ id ∈ namesAll ts, value id = value' id) :
    anyTrue I value ts = anyTrue I value' ts := by
  induction ts with
  | nil => rfl
  | cons t ts ih =>
    obtain ⟨hfirst, hrest⟩ := List.forall_mem_append.mp h
    rw [anyTrue, anyTrue, denote_congr t hfirst, ih hrest]

end Term

end Congruence

/-! ### The names in the term of an expression -/

section Lowering

variable {s : Style} {nt : NumberType} {op : Op} {e : Expr} {t : Term} {ts : List Term}
  {id : String}

@[simp]
theorem names_library (function : String) : (Term.library function).names = ["np"] := rfl

@[simp]
theorem names_callOf (function : String) (arguments : List Term) :
    (Term.callOf function arguments).names = function :: Term.namesAll arguments := rfl

/-- The names in **the form of an operation** come from its operands, but for that of a function. -/
theorem names_operation (h : operation nt op ts = .ok t) (hid : id ∈ t.names) :
    id ∈ reservedNames ∨ op = .functionCall id ∨ id ∈ Term.namesAll ts := by
  obtain ⟨hlibrary, hodd, hinsertion, hexponent, hmantissa, hmultiply⟩ : "np" ∈ reservedNames ∧
      "is_odd" ∈ reservedNames ∧ "exponent_insertion" ∈ reservedNames ∧
      "exponent" ∈ reservedNames ∧ "mantissa" ∈ reservedNames ∧ "mul_add" ∈ reservedNames := by
    decide
  rw [operation.eq_def] at h
  split at h
  case h_11 c a b =>
    cases h
    cases hvector : nt.isVector <;> rw [hvector] at hid <;>
      simp [Term.names, Term.namesAll] at hid ⊢ <;> grind
  case h_15 =>
    split at h <;> cases h
    exact .inr (.inr (by simpa [Term.names, Term.namesAll] using hid))
  case h_16 => cases h
  all_goals
    cases h
    simp only [Term.names, Term.namesAll, names_callOf, names_library, List.mem_append,
      List.mem_cons, List.not_mem_nil, or_false] at hid ⊢
    grind

theorem namesAll_eq_flatMap (ts : List Term) : Term.namesAll ts = ts.flatMap Term.names := by
  induction ts with
  | nil => rfl
  | cons t ts ih => rw [Term.namesAll, ih, List.flatMap_cons]

/-- The names in **the term of an expression** are those that every module begins with, and those
that the expression mentions. -/
theorem names_lower (hwf : e.WellFormed) (hcodings : e.HasFiniteCodings) (h : lower s e = .ok t)
    (hid : id ∈ t.names) : id ∈ reservedNames ∨ e.Mentions id := by
  induction e generalizing t with
  | node op es ih =>
    have hoperand {e : Expr} (he : e ∈ es) {u : Term} (hu : lower s e = .ok u)
        (hid : id ∈ u.names) : id ∈ reservedNames ∨ (Expr.node op es).Mentions id :=
      (ih e he (hwf.of_mem he) (hcodings.of_mem he) hu hid).imp_right (·.of_mem he)
    have hoperands {ts : List Term} (hts : lowerAll s es = .ok ts) (hid : id ∈ Term.namesAll ts) :
        id ∈ reservedNames ∨ (Expr.node op es).Mentions id := by
      rw [namesAll_eq_flatMap] at hid
      obtain ⟨u, hu, hid⟩ := List.mem_flatMap.mp hid
      obtain ⟨e, he, hlower⟩ := exists_mem_of_mem_result (lowerAll_eq_mapM s es ▸ hts) hu
      exact hoperand he hlower hid
    have hoperation (h : lowerAll s es >>= operation s.numberType op = .ok t) :
        id ∈ reservedNames ∨ (Expr.node op es).Mentions id := by
      obtain ⟨ts, hts, ht⟩ := bind_eq_ok.mp h
      rcases names_operation ht hid with hreserved | hcall | hid
      · exact .inl hreserved
      · exact .inr ⟨_, Expr.self_mem_subterms _, .inr hcall⟩
      · exact hoperands hts hid
    cases op with
    | constant | mathConstant | bitPattern | assignment | result | statement | custom => cases h
    | var name f =>
      obtain rfl : s.variableTerm name = t := Except.ok.inj h
      have hname : id ∈ ["np", name] := by
        rw [Style.variableTerm] at hid
        split at hid
        · exact hid
        · exact List.mem_cons_of_mem _ hid
      rcases List.mem_cons.mp hname with rfl | hname
      · exact .inl (by decide)
      · obtain rfl := List.mem_singleton.mp hname
        exact .inr ⟨_, Expr.self_mem_subterms _, .inl ⟨f, rfl⟩⟩
    | fromBits f =>
      obtain ⟨operand, rfl⟩ := hwf.exists_operand rfl
      obtain ⟨p, c, v, rfl, hc, -⟩ := hcodings.fromBits f operand (Expr.self_mem_subterms _)
      have hterm : Term.callOf (decodingHelper p) [.integer c] = t := by
        have hlower : constant operand (some (.binary p)) = .ok t := h
        rw [constant, codingTerm, hc] at hlower
        exact Except.ok.inj hlower
      obtain rfl : id = decodingHelper p := by simpa [← hterm, Term.namesAll, Term.names] using hid
      exact .inl (by cases p <;> decide)
    | splat f =>
      obtain ⟨operand, rfl⟩ := hwf.exists_operand rfl
      obtain ⟨u, hu, hterm⟩ := bind_eq_ok.mp h
      cases hterm
      rcases List.mem_cons.mp hid with rfl | hid
      · exact .inl (by decide)
      · exact hoperand List.mem_cons_self hu (by simpa [Term.namesAll] using hid)
    | conversion f =>
      obtain ⟨operand, rfl⟩ := hwf.exists_operand rfl
      obtain ⟨p, rfl⟩ := hcodings.conversion f _ (Expr.self_mem_subterms _)
      obtain ⟨type, u, htype, hu, rfl⟩ := lower_conversion_eq_ok h
      cases htype
      rcases List.mem_cons.mp hid with rfl | hid
      · exact .inl (by decide)
      · exact hoperand List.mem_cons_self hu (by simpa [Term.namesAll] using hid)
    | mathFunction name =>
      obtain ⟨function, ts, -, hts, rfl⟩ := lower_mathFunction_eq_ok h
      rcases List.mem_cons.mp hid with rfl | hid
      · exact .inl (by decide)
      · exact hoperands hts hid
    | _ => exact hoperation h

end Lowering

end Elementary.Native
