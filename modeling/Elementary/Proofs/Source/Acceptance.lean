import Elementary.C.Lowering
import Elementary.Native.Lowering
import Elementary.Proofs.Expr.Basic

/-!
# The expressions that the backends accept

A backend visits an expression in reading order, an operation before its operands, and takes the
bits of a bit conversion as they stand. It has a form for every operation but some, the foreign
ones: constants that were not quantized, bits outside a bit conversion, statements, operations known
by their name alone, and mathematical functions that its library lacks; the C backend has no form
for vectors and tuples either. The first foreign operation on the way is what it fails with, and
without one it succeeds.

## Main results

* `exists_operation_eq_ok`: an operation that has a form gives one on the right number of terms.
* `Outcome.node`: what a backend makes of an operation, from what it makes of the operands.
* `Native.outcome_lower`, `C.outcome_lower`: the outcome on a whole expression.
* `backends_accept_exactly`: both languages of expressions, and what all other expressions fail
  with.
-/

namespace Elementary

namespace Expr

variable {a e : Expr} {op : Op} {es : List Expr}

mutual

/-- The nodes that a backend **visits**, in reading order. What a bit conversion holds is taken as
it stands and not visited. -/
def visited : Expr → List Expr
  | node (.fromBits f) es => [node (.fromBits f) es]
  | node op es => node op es :: visitedAll es

/-- The nodes that are visited in a list of expressions. -/
def visitedAll : List Expr → List Expr
  | [] => []
  | e :: es => visited e ++ visitedAll es

end

theorem visited_node (h : ∀ f, op ≠ .fromBits f) :
    visited (node op es) = node op es :: visitedAll es := by
  cases op <;> first | rfl | exact absurd rfl (h _)

theorem mem_visitedAll : a ∈ visitedAll es ↔ ∃ e ∈ es, a ∈ e.visited := by
  induction es with
  | nil => simp [visitedAll]
  | cons e es ih => simp [visitedAll, ih]

theorem visitedAll_singleton (e : Expr) : visitedAll [e] = e.visited := by
  rw [visitedAll, visitedAll, List.append_nil]

/-- The first node that is visited is the root. -/
theorem mem_visited_self (e : Expr) : e ∈ e.visited := by
  obtain ⟨op, es⟩ := e
  by_cases h : ∀ f, op ≠ .fromBits f
  · rw [visited_node h]
    exact List.mem_cons_self
  · push Not at h
    obtain ⟨f, rfl⟩ := h
    exact List.mem_singleton_self _

/-- **Codings are finite**: every bit conversion is one of a bit pattern, which codes a finite
number of the format, and every conversion is to a binary format. -/
structure HasFiniteCodings (e : Expr) : Prop where
  fromBits : ∀ f operand, node (.fromBits f) [operand] ∈ e.subterms →
    ∃ p c v, f = some (.binary p) ∧ operand.op = .bitPattern c ∧ p.format.decode? c = some v
  conversion : ∀ f operands, node (.conversion f) operands ∈ e.subterms →
    ∃ p, f = some (.binary p)

theorem HasFiniteCodings.of_mem (h : (node op es).HasFiniteCodings) (he : e ∈ es) :
    e.HasFiniteCodings where
  fromBits f operand hmem := h.fromBits f operand (mem_subterms_of_mem he hmem)
  conversion f operands hmem := h.conversion f operands (mem_subterms_of_mem he hmem)

/-- Every subterm is visited, or it is the bit pattern of a bit conversion that is visited. -/
theorem mem_visited_or_bitPattern (hwf : e.WellFormed) (hcodings : e.HasFiniteCodings)
    (ha : a ∈ e.subterms) : a ∈ e.visited ∨ ∃ c, a.op = .bitPattern c := by
  induction e with
  | node op es ih =>
    rcases mem_subterms_node.mp ha with rfl | ⟨e, he, hmem⟩
    · exact .inl (mem_visited_self _)
    by_cases hop : ∀ f, op ≠ .fromBits f
    · rw [visited_node hop]
      rcases ih e he (hwf.of_mem he) (hcodings.of_mem he) hmem with h | h
      · exact .inl (List.mem_cons_of_mem _ (mem_visitedAll.mpr ⟨e, he, h⟩))
      · exact .inr h
    · push Not at hop
      obtain ⟨f, rfl⟩ := hop
      obtain ⟨operand, rfl⟩ := hwf.exists_operand rfl
      obtain ⟨p, c, v, -, hc, -⟩ := hcodings.fromBits f operand (self_mem_subterms _)
      obtain rfl := List.mem_singleton.mp he
      obtain ⟨opc, esc⟩ := e
      obtain rfl : opc = .bitPattern c := hc
      obtain rfl := List.length_eq_zero_iff.mp ((hwf.of_mem he).length_eq rfl)
      rcases mem_subterms_node.mp hmem with rfl | ⟨e, hnil, -⟩
      · exact .inr ⟨c, rfl⟩
      · exact absurd hnil List.not_mem_nil

end Expr

namespace Source

/-- The **mathematical functions** that have a counterpart in the libraries. -/
def libraryNames : List String :=
  ["sin", "cos", "tan", "asin", "acos", "atan", "exp", "exp2", "ln", "log2", "log10", "sinh",
    "cosh", "tanh", "atanh", "sqrt", "hypot"]

/-- The two **backends**. -/
inductive Backend where
  | native
  | c
  deriving DecidableEq, Repr

namespace Backend

/-- The name of a backend in messages. -/
def generatorName : Backend → String
  | native => Native.generatorName
  | c => C.generatorName

/-- The operations **without a form** in the language of a backend. -/
def isForeign (b : Backend) : Op → Bool
  | .constant _ | .mathConstant _ | .bitPattern _ => true
  | .assignment | .result | .statement | .custom _ => true
  | .mathFunction name => !libraryNames.contains name
  | .splat _ | .tuple => b == c
  | _ => false

/-- The first **foreign node** that a backend visits. -/
def firstForeign? (b : Backend) (visited : List Expr) : Option Expr :=
  visited.find? fun a => b.isForeign a.op

end Backend

/-- A function that is defined on **exactly the names** of the mathematical functions. -/
theorem isSome_eq_contains {find? : String → Option String}
    (hsome : ∀ name ∈ libraryNames, (find? name).isSome = true)
    (hnone : ∀ name, (∀ other ∈ libraryNames, name ≠ other) → find? name = none) (name : String) :
    (find? name).isSome = libraryNames.contains name := by
  by_cases h : name ∈ libraryNames
  · rw [hsome name h, List.contains_iff_mem.mpr h]
  · rw [hnone name fun other hother hname => h (hname ▸ hother)]
    have hcontains : libraryNames.contains name = false := by simpa using h
    rw [hcontains]
    rfl

variable {b : Backend} {op : Op} {es : List Expr} {e : Expr} {α β : Type}

/-- **The outcome of a backend** on the nodes that it visits: it succeeds when none of them is
foreign, and fails with the name of the first one that is. -/
def Outcome (b : Backend) (visited : List Expr) (x : Except Failure α) : Prop :=
  match b.firstForeign? visited with
  | none => ∃ t, x = .ok t
  | some a => ∃ remark, x = .error (.unsupportedNode b.generatorName a.op.name remark)

namespace Outcome

variable {x : Except Failure α} {y : Except Failure β} {vs ws : List Expr}

/-- A foreign root is what the backend fails with. -/
theorem of_isForeign (h : b.isForeign op = true) (hbits : ∀ f, op ≠ .fromBits f)
    (hx : ∃ remark, x = .error (.unsupportedNode b.generatorName op.name remark)) :
    Outcome b (Expr.node op es).visited x := by
  have hfirst : b.firstForeign? (Expr.node op es).visited = some (.node op es) := by
    rw [Expr.visited_node hbits]
    exact List.find?_cons_of_pos h
  rw [Outcome, hfirst]
  exact hx

/-- A bit conversion is never foreign. -/
theorem of_fromBits {f : Option ResultFormat} (hx : ∃ t, x = .ok t) :
    Outcome b (Expr.node (.fromBits f) es).visited x := by
  have hnone : b.firstForeign? (Expr.node (.fromBits f) es).visited = none := rfl
  rw [Outcome, hnone]
  exact hx

/-- Going on after a first part: the outcome of the whole, from those of the parts. -/
theorem bind {g : α → Except Failure β} (hx : Outcome b vs x)
    (hg : ∀ t, x = .ok t → Outcome b ws (g t)) : Outcome b (vs ++ ws) (x >>= g) := by
  have happend : b.firstForeign? (vs ++ ws) = (b.firstForeign? vs).or (b.firstForeign? ws) :=
    List.find?_append
  rw [Outcome] at hx
  rw [Outcome, happend]
  cases hfirst : b.firstForeign? vs with
  | some a =>
    rw [hfirst] at hx
    obtain ⟨remark, rfl⟩ := hx
    exact ⟨remark, rfl⟩
  | none =>
    rw [hfirst] at hx
    obtain ⟨t, rfl⟩ := hx
    exact hg t rfl

/-- Going on in a way that always succeeds. -/
theorem map {g : α → Except Failure β} (hx : Outcome b vs x)
    (hg : ∀ t, x = .ok t → ∃ u, g t = .ok u) : Outcome b vs (x >>= g) := by
  have h : Outcome b (vs ++ []) (x >>= g) := hx.bind fun t ht => hg t ht
  rwa [List.append_nil] at h

/-- The outcome on some expressions, taken from left to right. -/
theorem mapM {f : Expr → Except Failure α} (h : ∀ e ∈ es, Outcome b e.visited (f e)) :
    Outcome b (Expr.visitedAll es) (es.mapM f) := by
  induction es with
  | nil => exact ⟨[], rfl⟩
  | cons e es ih =>
    have htail := ih fun a ha => h a (List.mem_cons_of_mem e ha)
    rw [List.mapM_cons]
    exact (h e List.mem_cons_self).bind fun t _ => htail.map fun ts _ => ⟨t :: ts, rfl⟩

/-- **An operation that has a form**: the outcome is that of the operands, when their forms can be
joined. -/
theorem node (h : b.isForeign op = false) (hbits : ∀ f, op ≠ .fromBits f)
    {g : α → Except Failure β} (hes : Outcome b (Expr.visitedAll es) x)
    (hg : ∀ t, x = .ok t → ∃ u, g t = .ok u) :
    Outcome b (Expr.node op es).visited (x >>= g) := by
  have hfirst : b.firstForeign? (Expr.node op es).visited =
      b.firstForeign? (Expr.visitedAll es) := by
    rw [Expr.visited_node hbits]
    exact List.find?_cons_of_neg (by simp [Expr.op, h])
  have hjoined := hes.map hg
  rw [Outcome] at hjoined ⊢
  rwa [hfirst]

/-- The same for the form of the only operand. -/
theorem unary (h : b.isForeign op = false) (hbits : ∀ f, op ≠ .fromBits f)
    {g : α → Except Failure β} (he : Outcome b e.visited x)
    (hg : ∀ t, x = .ok t → ∃ u, g t = .ok u) : Outcome b (Expr.node op [e]).visited (x >>= g) := by
  rw [← Expr.visitedAll_singleton] at he
  exact .node h hbits he hg

/-- **A mathematical function** is accepted when the library has a counterpart of it. -/
theorem mathFunction {name remark : String} {library : Option String}
    (hlibrary : library.isSome = libraryNames.contains name) (form : String → α → β)
    (hes : Outcome b (Expr.visitedAll es) x) :
    Outcome b (Expr.node (.mathFunction name) es).visited
      (match library with
        | none => .error (.unsupportedNode b.generatorName (Op.mathFunction name).name remark)
        | some function => x >>= fun t => .ok (form function t)) := by
  have hforeign : b.isForeign (.mathFunction name) = !library.isSome := by
    rw [hlibrary]
    rfl
  cases library with
  | none => exact .of_isForeign hforeign (by simp) ⟨remark, rfl⟩
  | some function => exact .node hforeign (by simp) hes fun t _ => ⟨form function t, rfl⟩

/-- What is not accepted fails with the first foreign node. -/
theorem error_of_firstForeign? {a : Expr} (h : Outcome b vs x)
    (ha : b.firstForeign? vs = some a) :
    ∃ remark, x = .error (.unsupportedNode b.generatorName a.name remark) := by
  rw [Outcome, ha] at h
  exact h

/-- What is accepted has no foreign node on the way. -/
theorem exists_ok_iff (h : Outcome b vs x) :
    (∃ t, x = .ok t) ↔ ∀ a ∈ vs, b.isForeign a.op = false := by
  have hnone : b.firstForeign? vs = none ↔ ∀ a ∈ vs, b.isForeign a.op = false := by
    simp [Backend.firstForeign?]
  rw [← hnone]
  rw [Outcome] at h
  cases hfirst : b.firstForeign? vs with
  | none =>
    rw [hfirst] at h
    exact iff_of_true h rfl
  | some a =>
    rw [hfirst] at h
    obtain ⟨remark, rfl⟩ := h
    refine iff_of_false ?_ ?_
    · rintro ⟨t, ht⟩
      cases ht
    · simp

end Outcome


/-! ### The two languages -/

end Source

namespace Native

open Source (Outcome libraryNames)

variable {op : Op} {es : List Expr} {e : Expr}

/-- The library has a counterpart for **exactly the named functions**. -/
theorem libraryFunction?_isSome (name : String) :
    (libraryFunction? name).isSome = libraryNames.contains name := by
  refine Source.isSome_eq_contains (by decide) (fun name hne => ?_) name
  simp only [libraryNames, List.forall_mem_cons] at hne
  simp [libraryFunction?, List.lookup_cons, List.lookup_nil, hne, beq_eq_false_iff_ne.mpr]

/-- **An operation that has a form** gives one on the right number of terms. -/
theorem exists_operation_eq_ok (nt : NumberType) {ts : List Term} (h : isOperation op = true)
    (harity : op.checkArity ts.length = .ok ()) : ∃ t, operation nt op ts = .ok t := by
  rw [Op.checkArity_eq_ok_iff] at harity
  cases op <;> first
    | exact absurd h Bool.false_ne_true
    | exact ⟨_, rfl⟩
    | (obtain ⟨x, rfl⟩ := List.length_eq_one_iff.mp (harity 1 rfl); exact ⟨_, rfl⟩)
    | (obtain ⟨x, y, rfl⟩ := List.length_eq_two.mp (harity 2 rfl); exact ⟨_, rfl⟩)
    | (obtain ⟨x, y, z, rfl⟩ := List.length_eq_three.mp (harity 3 rfl); exact ⟨_, rfl⟩)

theorem lowerAll_eq_mapM (s : Style) (es : List Expr) : lowerAll s es = es.mapM (lower s) := by
  induction es with
  | nil => rfl
  | cons e es ih => rw [lowerAll, ih, List.mapM_cons]

section Inversion

variable {s : Style} {t : Term}

/-- A mathematical function is written as a call of its counterpart. -/
theorem lower_mathFunction_eq_ok {name : String}
    (h : lower s (.node (.mathFunction name) es) = .ok t) :
    ∃ function ts, libraryFunction? name = some function ∧ lowerAll s es = .ok ts ∧
      t = .call (.library function) ts := by
  rw [lower] at h
  cases hfunction : libraryFunction? name with
  | none =>
    rw [hfunction] at h
    cases h
  | some function =>
    rw [hfunction] at h
    obtain ⟨ts, hts, hterm⟩ := bind_eq_ok.mp h
    cases hterm
    exact ⟨function, ts, rfl, hts, rfl⟩

/-- A conversion is written as a call of the type. -/
theorem lower_conversion_eq_ok {f : Option ResultFormat}
    (h : lower s (.node (.conversion f) [e]) = .ok t) :
    ∃ type u, conversionType f = .ok type ∧ lower s e = .ok u ∧ t = .call type [u] := by
  obtain ⟨type, htype, h⟩ := bind_eq_ok.mp h
  obtain ⟨u, hu, hterm⟩ := bind_eq_ok.mp h
  cases hterm
  exact ⟨type, u, htype, hu, rfl⟩

end Inversion

/-- **The outcome of the Python backend** on an expression. -/
theorem outcome_lower (s : Style) (hwf : e.WellFormed) (hcodings : e.HasFiniteCodings) :
    Outcome .native e.visited (lower s e) := by
  induction e with
  | node op es ih =>
    have harity := (Expr.wellFormed_node.mp hwf).1
    have hoperand {e : Expr} (he : e ∈ es) : Outcome .native e.visited (lower s e) :=
      ih e he (hwf.of_mem he) (hcodings.of_mem he)
    have hall : Outcome .native (Expr.visitedAll es) (lowerAll s es) := by
      rw [lowerAll_eq_mapM]
      exact .mapM fun e he => hoperand he
    have hoperation : isOperation op = true →
        Outcome .native (Expr.node op es).visited
          (lowerAll s es >>= operation s.numberType op) := fun hop =>
      .node (by cases op <;> first | rfl | cases hop) (by rintro f rfl; cases hop) hall
        fun ts hts => exists_operation_eq_ok _ hop <| by
          rwa [← (mapM_eq_ok.mp (lowerAll_eq_mapM s es ▸ hts)).length_eq]
    cases op with
    | constant | mathConstant | bitPattern | assignment | result | statement | custom =>
      exact .of_isForeign rfl (by simp) ⟨_, rfl⟩
    | var name f =>
      obtain rfl := List.length_eq_zero_iff.mp (hwf.length_eq rfl)
      exact ⟨_, rfl⟩
    | fromBits f =>
      obtain ⟨operand, rfl⟩ := hwf.exists_operand rfl
      obtain ⟨p, c, v, rfl, hc, -⟩ := hcodings.fromBits f operand (Expr.self_mem_subterms _)
      refine .of_fromBits ⟨.callOf (decodingHelper p) [.integer c], ?_⟩
      show constant operand (some (.binary p)) = _
      rw [constant, codingTerm, hc]
      rfl
    | splat f =>
      obtain ⟨operand, rfl⟩ := hwf.exists_operand rfl
      exact .unary rfl (by simp) (hoperand List.mem_cons_self) fun t _ =>
        ⟨.callOf "splat" [t], rfl⟩
    | conversion f =>
      obtain ⟨operand, rfl⟩ := hwf.exists_operand rfl
      obtain ⟨p, rfl⟩ := hcodings.conversion f _ (Expr.self_mem_subterms _)
      have hform : Outcome .native (Expr.node (.conversion (some (.binary p))) [operand]).visited
          (lower s operand >>= fun t => .ok (Term.call (.library (scalarType p)) [t])) :=
        .unary rfl (by simp) (hoperand List.mem_cons_self) fun t _ => ⟨_, rfl⟩
      exact hform
    | mathFunction name =>
      exact .mathFunction (libraryFunction?_isSome name) (fun f ts => Term.call (Term.library f) ts)
        hall
    | _ => exact hoperation rfl

end Native

namespace C

open Source (Outcome libraryNames)

variable {op : Op} {es : List Expr} {e : Expr}

/-- The library has a counterpart for **exactly the named functions**. -/
theorem libraryFunction?_isSome (name : String) :
    (libraryFunction? name).isSome = libraryNames.contains name := by
  refine Source.isSome_eq_contains (by decide) (fun name hne => ?_) name
  simp only [libraryNames, List.forall_mem_cons] at hne
  simp [libraryFunction?, hne]

/-- **An operation that has a form** gives one on the right number of terms. -/
theorem exists_operation_eq_ok (suffix : String) {ts : List Term} (h : isOperation op = true)
    (harity : op.checkArity ts.length = .ok ()) : ∃ t, operation suffix op ts = .ok t := by
  rw [Op.checkArity_eq_ok_iff] at harity
  cases op <;> first
    | exact absurd h Bool.false_ne_true
    | exact ⟨_, rfl⟩
    | (obtain ⟨x, rfl⟩ := List.length_eq_one_iff.mp (harity 1 rfl); exact ⟨_, rfl⟩)
    | (obtain ⟨x, y, rfl⟩ := List.length_eq_two.mp (harity 2 rfl); exact ⟨_, rfl⟩)
    | (obtain ⟨x, y, z, rfl⟩ := List.length_eq_three.mp (harity 3 rfl); exact ⟨_, rfl⟩)

theorem lowerAll_eq_mapM (p : Precision) (suffix : String) (es : List Expr) :
    lowerAll p suffix es = es.mapM (lower p suffix) := by
  induction es with
  | nil => rfl
  | cons e es ih => rw [lowerAll, ih, List.mapM_cons]

section Inversion

variable {p : Precision} {suffix : String} {t : Term}

/-- A mathematical function is written as a call of its counterpart. -/
theorem lower_mathFunction_eq_ok {name : String}
    (h : lower p suffix (.node (.mathFunction name) es) = .ok t) :
    ∃ function ts, libraryFunction? name = some function ∧ lowerAll p suffix es = .ok ts ∧
      t = .call (function ++ widestSuffix) ts := by
  rw [lower] at h
  cases hfunction : libraryFunction? name with
  | none =>
    rw [hfunction] at h
    cases h
  | some function =>
    rw [hfunction] at h
    obtain ⟨ts, hts, hterm⟩ := bind_eq_ok.mp h
    cases hterm
    exact ⟨function, ts, rfl, hts, rfl⟩

/-- A conversion is written as a cast in parentheses. -/
theorem lower_conversion_eq_ok {f : Option ResultFormat}
    (h : lower p suffix (.node (.conversion f) [e]) = .ok t) :
    ∃ type u, conversionType f = .ok type ∧ lower p suffix e = .ok u ∧
      t = .parenthesized (.cast type u) := by
  obtain ⟨type, htype, h⟩ := bind_eq_ok.mp h
  obtain ⟨u, hu, hterm⟩ := bind_eq_ok.mp h
  cases hterm
  exact ⟨type, u, htype, hu, rfl⟩

end Inversion

/-- A bit pattern that codes a finite number of a precision is written, in the code of either
precision. -/
theorem exists_constant_eq_ok (p : Precision) {q : Precision} {c : Int} {v : Rat}
    (hv : q.format.decode? c = some v) : ∃ t, constant p c (some (.binary q)) = .ok t := by
  rw [constant]
  by_cases h : q = p
  · exact ⟨_, by rw [if_pos h]⟩
  · exact ⟨_, by rw [if_neg h, hv]⟩

/-- **The outcome of the C backend** on an expression. -/
theorem outcome_lower (p : Precision) (suffix : String) (hwf : e.WellFormed)
    (hcodings : e.HasFiniteCodings) : Outcome .c e.visited (lower p suffix e) := by
  induction e with
  | node op es ih =>
    have harity := (Expr.wellFormed_node.mp hwf).1
    have hoperand {e : Expr} (he : e ∈ es) : Outcome .c e.visited (lower p suffix e) :=
      ih e he (hwf.of_mem he) (hcodings.of_mem he)
    have hall : Outcome .c (Expr.visitedAll es) (lowerAll p suffix es) := by
      rw [lowerAll_eq_mapM]
      exact .mapM fun e he => hoperand he
    have hoperation : isOperation op = true →
        Outcome .c (Expr.node op es).visited
          (lowerAll p suffix es >>= operation suffix op) := fun hop =>
      .node (by cases op <;> first | rfl | cases hop) (by rintro f rfl; cases hop) hall
        fun ts hts => exists_operation_eq_ok _ hop <| by
          rwa [← (mapM_eq_ok.mp (lowerAll_eq_mapM p suffix es ▸ hts)).length_eq]
    cases op with
    | constant | mathConstant | bitPattern | splat | tuple | assignment | result | statement
    | custom => exact .of_isForeign rfl (by simp) ⟨_, rfl⟩
    | var name f =>
      obtain rfl := List.length_eq_zero_iff.mp (hwf.length_eq rfl)
      exact ⟨_, rfl⟩
    | fromBits f =>
      obtain ⟨operand, rfl⟩ := hwf.exists_operand rfl
      obtain ⟨q, c, v, rfl, hc, hv⟩ := hcodings.fromBits f operand (Expr.self_mem_subterms _)
      obtain ⟨t, ht⟩ := exists_constant_eq_ok p hv
      refine .of_fromBits ⟨t, ?_⟩
      have hcoding : operand.coding = .ok c := by rw [Expr.coding, hc]
      show (operand.coding >>= fun c => constant p c (some (.binary q))) = _
      rw [hcoding]
      exact ht
    | conversion f =>
      obtain ⟨operand, rfl⟩ := hwf.exists_operand rfl
      obtain ⟨q, rfl⟩ := hcodings.conversion f _ (Expr.self_mem_subterms _)
      have hform : Outcome .c (Expr.node (.conversion (some (.binary q))) [operand]).visited
          (lower p suffix operand >>= fun t => .ok (Term.parenthesized (.cast (scalarType q) t))) :=
        .unary rfl (by simp) (hoperand List.mem_cons_self) fun t _ => ⟨_, rfl⟩
      exact hform
    | mathFunction name =>
      exact .mathFunction (libraryFunction?_isSome name)
        (fun f ts => Term.call (f ++ widestSuffix) ts) hall
    | _ => exact hoperation rfl

end C

namespace Source

variable {b : Backend} {e : Expr}

/-- **No constant that was not quantized** stands in an expression without a foreign node. -/
theorem not_constant_of_not_isForeign (hwf : e.WellFormed) (hcodings : e.HasFiniteCodings)
    (h : ∀ a ∈ e.visited, b.isForeign a.op = false) {a : Expr} (ha : a ∈ e.subterms) :
    (∀ v, a.op ≠ .constant v) ∧ ∀ name, a.op ≠ .mathConstant name := by
  rcases Expr.mem_visited_or_bitPattern hwf hcodings ha with hvisited | ⟨c, hc⟩
  · have hforeign := h a hvisited
    constructor <;> intro _ hop <;> rw [hop] at hforeign <;> cases hforeign
  · constructor <;> intro _ hop <;> rw [hop] at hc <;> cases hc

/-- **Each backend accepts exactly its language.** Take a well-formed expression whose bit
conversions are of bit patterns that code finite numbers, and whose conversions are to binary
formats. It has Python code, in any style, exactly if no node that is visited is foreign to that
backend, and C code, in either precision and with any suffix, exactly if none is foreign to that
one. Otherwise the failure names the first foreign node in reading order. An expression with code
holds no constant that was not quantized. -/
theorem backends_accept_exactly (e : Expr) (hwf : e.WellFormed) (hcodings : e.HasFiniteCodings) :
    (∀ s : Native.Style,
      ((∃ t, Native.lower s e = .ok t) ↔
        ∀ a ∈ e.visited, Backend.native.isForeign a.op = false) ∧
      (∀ a, Backend.native.firstForeign? e.visited = some a → ∃ remark,
        Native.lower s e = .error (.unsupportedNode Native.generatorName a.name remark)) ∧
      ∀ t, Native.lower s e = .ok t → ∀ a ∈ e.subterms,
        (∀ v, a.op ≠ .constant v) ∧ ∀ name, a.op ≠ .mathConstant name) ∧
    ∀ (p : Precision) (suffix : String),
      ((∃ t, C.lower p suffix e = .ok t) ↔
        ∀ a ∈ e.visited, Backend.c.isForeign a.op = false) ∧
      (∀ a, Backend.c.firstForeign? e.visited = some a → ∃ remark,
        C.lower p suffix e = .error (.unsupportedNode C.generatorName a.name remark)) ∧
      ∀ t, C.lower p suffix e = .ok t → ∀ a ∈ e.subterms,
        (∀ v, a.op ≠ .constant v) ∧ ∀ name, a.op ≠ .mathConstant name := by
  constructor
  · intro s
    have houtcome := Native.outcome_lower s hwf hcodings
    refine ⟨houtcome.exists_ok_iff, fun a ha => houtcome.error_of_firstForeign? ha,
      fun t ht a ha => ?_⟩
    exact not_constant_of_not_isForeign hwf hcodings (houtcome.exists_ok_iff.mp ⟨t, ht⟩) ha
  · intro p suffix
    have houtcome := C.outcome_lower p suffix hwf hcodings
    refine ⟨houtcome.exists_ok_iff, fun a ha => houtcome.error_of_firstForeign? ha,
      fun t ht a ha => ?_⟩
    exact not_constant_of_not_isForeign hwf hcodings (houtcome.exists_ok_iff.mp ⟨t, ht⟩) ha

/-- A sum of quantized one and of a function that no library has, at a constant. -/
def sumWithErf : Expr :=
  .node .addition
    [.node (.fromBits (some (.binary .single))) [.node (.bitPattern 0x3f800000) []],
      .node (.mathFunction "erf") [.constant (.integer 1)]]

/-- The function is met before its operand, and it is what both backends fail with. -/
theorem backends_reject_sumWithErf :
    (sumWithErf.WellFormed ∧ sumWithErf.HasFiniteCodings) ∧
      (∃ remark, Native.lower ⟨⟨.single, true⟩, false⟩ sumWithErf =
        .error (.unsupportedNode "NativeCodeGenerator" "MathFunction" remark)) ∧
      ∃ remark, C.lower .single "l" sumWithErf =
        .error (.unsupportedNode "CCodeGenerator" "MathFunction" remark) := by
  have hone : ∃ v, Precision.single.format.decode? 0x3f800000 = some v :=
    Option.isSome_iff_exists.mp (by decide +kernel)
  have hcodings : sumWithErf.HasFiniteCodings := by
    constructor
    · intro f operand hmem
      obtain ⟨v, hv⟩ := hone
      simp [sumWithErf, Expr.constant, Expr.mem_subterms_node] at hmem
      obtain ⟨rfl, rfl⟩ := hmem
      exact ⟨.single, _, v, rfl, rfl, hv⟩
    · intro f operands hmem
      simp [sumWithErf, Expr.constant, Expr.mem_subterms_node] at hmem
  obtain ⟨hnative, hc⟩ := backends_accept_exactly sumWithErf rfl hcodings
  exact ⟨⟨rfl, hcodings⟩, (hnative _).2.1 _ rfl, (hc _ _).2.1 _ rfl⟩

end Source

end Elementary
