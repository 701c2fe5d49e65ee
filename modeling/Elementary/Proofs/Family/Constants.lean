import Elementary.Proofs.Family.Library

/-!
# The constants of the bodies

Apart from the coefficients of the polynomials, every constant in the body of a function has a
coding in every number type. So a body is codable when the schemes in it are.

## Main results

* `LibraryFunction.codable_template`: the bodies without polynomials.
* `LibraryFunction.codable_body`: the bodies with codable schemes.
-/

namespace Elementary

namespace LibraryFunction

open Expr (Codable)

variable {nt : NumberType} {F : LibraryFunction} {c : Ingredients}

/-- Schemes, a number of refinements, and the parts of the logarithm of two for a number type. -/
def ingredients (nt : NumberType) (schemes : List Expr) (refinements : Int) : Ingredients :=
  let parts := Exponential.splitLn2 (nt.precision.format.fieldSize + 1)
  ⟨schemes, refinements, parts.1, parts.2⟩

/-- A scheme at a place is codable when all of them are. -/
theorem codable_polynomial (hp : ∀ e ∈ c.polynomials, e.Codable nt) (i : Nat) :
    (c.polynomial i).Codable nt := by
  rw [Ingredients.polynomial, List.getD_eq_getElem?_getD]
  cases h : c.polynomials[i]? with
  | none => exact Expr.isCodable_iff.mp rfl
  | some e => exact hp e (List.mem_of_getElem? h)

/-- **The bodies without polynomials** are codable in every number type. -/
theorem codable_template (nt : NumberType) (F : LibraryFunction) :
    ∀ e ∈ F.body nt (ingredients nt [] 1), e.Codable nt := by
  have hall : ∀ F ∈ Library.functions .singlePass ++ Library.functions .quadrant,
      ∀ p ∈ [Precision.single, .double], ∀ v ∈ [false, true],
      ∀ e ∈ F.body ⟨p, v⟩ (ingredients ⟨p, v⟩ [] 1),
        e.isCodable ⟨p, v⟩ = true := by
    decide +kernel
  obtain ⟨p, v⟩ := nt
  refine fun e he => Expr.isCodable_iff.mp (hall F ?_ p ?_ v ?_ e he)
  · cases F with
    | sine strategy => cases strategy <;> decide
    | cosine strategy => cases strategy <;> decide
    | logarithm base => cases base <;> decide
    | _ => decide
  · cases p <;> decide
  · cases v <;> decide

/-- The number of refinements does not matter: one statement is repeated. -/
theorem codable_refined {ps : List Expr} {head tail : Rat} (k : Int)
    (h : ∀ e ∈ F.body nt ⟨ps, 1, head, tail⟩, e.Codable nt) :
    ∀ e ∈ F.body nt ⟨ps, k, head, tail⟩, e.Codable nt := by
  have hrepeated : ∀ {pre post : List Expr} {statement : Expr},
      (∀ e ∈ pre ++ Root.repeated 1 statement ++ post, e.Codable nt) →
        ∀ e ∈ pre ++ Root.repeated k statement ++ post, e.Codable nt := by
    intro pre post statement hone e he
    simp only [List.append_assoc, List.mem_append] at he hone
    rcases he with he | he | he
    · exact hone e (.inl he)
    · exact hone e (.inr (.inl (List.eq_of_mem_replicate he ▸ List.mem_cons_self)))
    · exact hone e (.inr (.inr he))
  cases F with
  | sine strategy => cases strategy <;> exact h
  | cosine strategy => cases strategy <;> exact h
  | reciprocal => exact hrepeated h
  | reciprocalRoot => exact hrepeated h
  | squareRoot => exact hrepeated h
  | _ => exact h

/-- Statements that are codable when others are, one by one. -/
abbrev CodableFrom (nt : NumberType) (es es' : List Expr) : Prop :=
  List.Forall₂ (fun e e' => e.Codable nt → e'.Codable nt) es es'

theorem codableFrom_refl (es : List Expr) : CodableFrom nt es es :=
  List.forall₂_same.mpr fun _ _ => id

/-- An assigned value is codable by itself. -/
theorem codable_assign {target e e' : Expr} (he : e.Codable nt)
    (h : (Expr.assign target e').Codable nt) : (Expr.assign target e).Codable nt := by
  have htarget := (Expr.codable_operation rfl).mp h target List.mem_cons_self
  exact (Expr.codable_operation rfl).mpr (by simpa using ⟨htarget, he⟩)

/-- After some statements another value is assigned. -/
theorem codableFrom_assign {target e e' : Expr} (he : e.Codable nt) (pre post : List Expr) :
    CodableFrom nt (pre ++ Expr.assign target e' :: post)
      (pre ++ Expr.assign target e :: post) := by
  induction pre with
  | nil => exact .cons (codable_assign he) (codableFrom_refl post)
  | cons e pre ih => exact .cons id ih

/-- **Codable schemes** in place of none leave the body codable. -/
theorem codableFrom_template (hp : ∀ e ∈ c.polynomials, e.Codable nt) :
    CodableFrom nt (F.body nt { c with polynomials := [] }) (F.body nt c) := by
  have hs := codable_polynomial hp
  have hoperand : ∀ {op : Op} {e : Expr}, op.number? = none → e.Codable nt →
      (Expr.node op [e]).Codable nt := fun hop he =>
    (Expr.codable_operation hop).mpr (List.forall_mem_singleton.mpr he)
  cases F with
  | sine strategy =>
    cases strategy with
    | singlePass => exact .cons id (.cons id (.cons (fun _ => hoperand rfl (hs 0)) .nil))
    | quadrant =>
      refine .cons id (.cons id (.cons id (.cons id (.cons id (.cons id ?_)))))
      exact .cons (codable_assign (hs 0))
        (.cons (codable_assign (hoperand rfl (hs 1))) (codableFrom_refl _))
  | cosine strategy =>
    cases strategy with
    | singlePass => exact .cons id (.cons id (.cons (fun _ => hoperand rfl (hs 0)) .nil))
    | quadrant =>
      refine .cons id (.cons id (.cons id (.cons id (.cons id (.cons id ?_)))))
      exact .cons (codable_assign (hs 0)) (.cons (codable_assign (hs 1)) (codableFrom_refl _))
  | sineCosine | negateOnOdd | length => exact codableFrom_refl _
  | tangent => exact codableFrom_assign (hs 0) [_, _, _] _
  | arctangent => exact codableFrom_assign (hs 0) [_, _, _] _
  | arcsine => exact codableFrom_assign (hs 0) [_, _, _] _
  | arccosine => exact codableFrom_assign (hs 0) [_, _, _] _
  | exponential => exact codableFrom_assign (hs 0) [_, _] _
  | binaryExponential => exact codableFrom_assign (hs 0) [_, _] _
  | logarithm base => exact codableFrom_assign (hs 0) [_, _, _, _, _, _] _
  | hyperbolicSine => exact codableFrom_assign (hs 0) [] _
  | hyperbolicCosine => exact codableFrom_assign (hs 0) [] _
  | hyperbolicTangent => exact codableFrom_assign (hs 0) [_] _
  | reciprocal => exact codableFrom_assign (hs 0) [_, _, _] _
  | reciprocalRoot => exact codableFrom_assign (hs 0) [_, _, _] _
  | squareRoot => exact codableFrom_assign (hs 0) [_, _, _] _

/-- **The bodies are codable** when the schemes in them are. -/
theorem codable_body {ps : List Expr} (hp : ∀ e ∈ ps, e.Codable nt) (k : Int) :
    ∀ e ∈ F.body nt (ingredients nt ps k), e.Codable nt := by
  intro e he
  have hfrom := codableFrom_template (F := F) (c := ingredients nt ps k) hp
  obtain ⟨e', he', himp⟩ := exists_of_forall₂ hfrom.flip he
  exact himp (codable_refined k (codable_template nt F) e' he')

end LibraryFunction

end Elementary
