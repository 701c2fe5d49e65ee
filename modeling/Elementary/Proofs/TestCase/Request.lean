import Elementary.Proofs.Source.Closed

/-!
# Tests from their requests

A request for a test becomes a test when its bound is positive, its interval is not empty and every
number in it has a coding. The test holds the coded expressions of the request and otherwise what
the request holds. When the request is for closed expressions, the test is closed.

## Main definitions

* `TestCase.Request.IsBuildable`: what a request has to satisfy.
* `TestCase.Request.Describes`: the test of a request.

## Main results

* `TestCase.Request.build_ends`: how the building of a test ends.
-/

namespace Elementary.TestCase

open Computation

/-- The expression that stands at an end of an interval. -/
def boundExpr : Expr.Operand → Expr
  | .number n => .constant n
  | .expr e => e

/-- The expression of a request can be **quantized**. -/
def IsQuantizable (nt : NumberType) (o : Expr.Operand) : Prop :=
  ∃ e, o = .expr e ∧ e.Codable nt

namespace Request

/-- **What a request has to satisfy** so that a test can be built from it. -/
structure IsBuildable (r : Request) : Prop where
  bound : isPositive r.maxError = .ok true
  low : (boundExpr r.low).Codable referenceType
  high : (boundExpr r.high).Codable referenceType
  interval : ∃ low high, Bound.ofExpr ((boundExpr r.low).coded referenceType) = .ok low ∧
    Bound.ofExpr ((boundExpr r.high).coded referenceType) = .ok high ∧ low.value < high.value
  reference : IsQuantizable referenceType r.reference
  candidate : IsQuantizable r.numberType r.candidate

/-- Whether a test can be built from a request, computed. -/
def isBuildable (r : Request) : Bool :=
  match isPositive r.maxError, r.reference, r.candidate,
      Bound.ofExpr ((boundExpr r.low).coded referenceType),
      Bound.ofExpr ((boundExpr r.high).coded referenceType) with
  | .ok true, .expr reference, .expr candidate, .ok low, .ok high =>
    (boundExpr r.low).isCodable referenceType && (boundExpr r.high).isCodable referenceType &&
      decide (low.value < high.value) && reference.isCodable referenceType &&
      candidate.isCodable r.numberType
  | _, _, _, _, _ => false

/-- What is found to be buildable is. -/
theorem isBuildable_spec {r : Request} (h : r.isBuildable = true) : r.IsBuildable := by
  rw [isBuildable.eq_def] at h
  split at h
  · next reference candidate low high hbound hreference hcandidate hlow hhigh =>
    simp only [Bool.and_eq_true, decide_eq_true_eq, Expr.isCodable_iff] at h
    obtain ⟨⟨⟨⟨hlow', hhigh'⟩, hlt⟩, href⟩, hcand⟩ := h
    exact ⟨hbound, hlow', hhigh', ⟨low, high, hlow, hhigh, hlt⟩, ⟨_, hreference, href⟩,
      ⟨_, hcandidate, hcand⟩⟩
  · cases h

/-- The **test of a request**. -/
structure Describes (r : Request) (t : TestCase) : Prop where
  name : t.name = r.name
  maxError : t.maxError = r.maxError
  argument : t.argument = r.argument
  low : (boundExpr r.low).Codable referenceType ∧
    t.low.expr = (boundExpr r.low).coded referenceType
  high : (boundExpr r.high).Codable referenceType ∧
    t.high.expr = (boundExpr r.high).coded referenceType
  reference : ∃ e : Expr, r.reference = .expr e ∧ e.Codable referenceType ∧
    t.reference = e.coded referenceType
  candidate : ∃ e : Expr, r.candidate = .expr e ∧ e.Codable r.numberType ∧
    t.candidate = e.coded r.numberType

end Request

variable {o : Expr.Operand} {nt : NumberType} {r : Request} {t : TestCase}

/-- A quantized end of an interval is coded. -/
theorem quantizedBound_ends (o : Expr.Operand) (events : Array Event) :
    Ends (quantizedBound o) events
      (fun e _ => (boundExpr o).Codable referenceType ∧ e = (boundExpr o).coded referenceType)
      fun _ _ => ¬ (boundExpr o).Codable referenceType := by
  have hquantize := (Expr.quantize_ends referenceType (boundExpr o) events).mono
    (fun e s h => And.symm h) fun _ _ ⟨_, hfails, _⟩ => hfails.not_codable
  cases o <;> exact hquantize

/-- A quantized expression is coded. -/
theorem quantized_ends (nt : NumberType) (o : Expr.Operand) (events : Array Event) :
    Ends (quantized nt o) events
      (fun e' _ => ∃ e : Expr, o = .expr e ∧ e.Codable nt ∧ e' = e.coded nt)
      fun _ _ => ¬ IsQuantizable nt o := by
  cases o with
  | number n => exact .throw fun ⟨e, he, _⟩ => by cases he
  | expr e =>
    refine (Expr.quantize_ends nt e events).mono (fun e' s h => ⟨e, rfl, h.symm⟩) ?_
    rintro _ _ ⟨f, hfails, -⟩ ⟨_, he, hcodable⟩
    cases he
    exact hfails.not_codable hcodable

/-- What has an expected number as the bound has it in a test. -/
theorem ofExpr_expr {e : Expr} {b : Bound} (h : Bound.ofExpr e = .ok b) : b.expr = e := by
  rw [Bound.ofExpr.eq_def] at h
  split at h
  · cases h
  · split at h
    · split at h <;> cases h
      rfl
    · cases h

namespace Request

/-- **How the building of a test ends**, after any messages. -/
theorem build_ends (r : Request) (events : Array Event) :
    Ends r.build events (fun t _ => r.Describes t) fun _ _ => ¬ r.IsBuildable := by
  rw [build]
  refine ((Traced.ofExcept_ends _ _).mono (fun _ _ h => h) ?_).bind fun positive s₁ hpositive => ?_
  · exact fun _ _ h hr => by cases h.symm.trans hr.bound
  refine Traced.abortUnless_ends (fun hbound _ hr => ?_) fun hbound => ?_
  · exact hbound (Except.ok.inj (hpositive.symm.trans hr.bound))
  refine ((quantizedBound_ends r.low _).mono (fun _ _ h => h) ?_).bind fun lowExpr s₂ hlow => ?_
  · exact fun _ _ h hr => h hr.low
  refine ((quantizedBound_ends r.high _).mono (fun _ _ h => h) ?_).bind fun highExpr s₃ hhigh => ?_
  · exact fun _ _ h hr => h hr.high
  refine ((Traced.ofExcept_ends _ _).mono (fun _ _ h => h) ?_).bind fun low s₄ hlowBound => ?_
  · rintro _ _ h hr
    obtain ⟨_, _, hbound, -⟩ := hr.interval
    cases (hlow.2 ▸ h).symm.trans hbound
  refine ((Traced.ofExcept_ends _ _).mono (fun _ _ h => h) ?_).bind fun high s₅ hhighBound => ?_
  · rintro _ _ h hr
    obtain ⟨_, _, -, hbound, -⟩ := hr.interval
    cases (hhigh.2 ▸ h).symm.trans hbound
  split
  · refine (Traced.report_ends _ _ _ _).bind fun _ s₆ _ => ?_
    refine ((quantized_ends _ r.reference _).mono (fun _ _ h => h) ?_).bind fun e s₇ href => ?_
    · exact fun _ _ h hr => h hr.reference
    refine ((quantized_ends _ r.candidate _).mono (fun _ _ h => h) ?_).bind fun e' s₈ hcand => ?_
    · exact fun _ _ h hr => h hr.candidate
    refine .pure ⟨rfl, rfl, rfl, ⟨hlow.1, ?_⟩, ⟨hhigh.1, ?_⟩, href, hcand⟩
    · exact (ofExpr_expr hlowBound).trans hlow.2
    · exact (ofExpr_expr hhighBound).trans hhigh.2
  · next hempty =>
    refine (Traced.abort_ends _ _ _ _).mono (fun _ _ h => h) ?_
    rintro _ _ - hr
    obtain ⟨low', high', hlow', hhigh', hlt⟩ := hr.interval
    rw [← hlow.2, hlowBound] at hlow'
    rw [← hhigh.2, hhighBound] at hhigh'
    cases hlow'
    cases hhigh'
    exact hempty hlt

/-! ### Tests of closed expressions -/

/-- Whether a request is for a test of **closed expressions** between two numbers, with a bound of
less than sixteen units. -/
def isClosed (functions : List (String × Nat)) (r : Request) : Bool :=
  match r.reference, r.candidate, r.low, r.high, r.maxError with
  | .expr reference, .expr candidate, .number _, .number _, .integer (.ofNat bound) =>
    reference.isClosed ⟨[r.argument], [], true⟩ &&
      candidate.isClosed ⟨[r.argument], functions, false⟩ && bound < 16
  | _, _, _, _, _ => false

/-- So small a bound is in the range of double precision. -/
theorem isFinite_toDouble {bound : Nat} (h : bound < 16) :
    (Number.toDouble (bound : Int)).isFinite = true := by
  have hall : ∀ n ∈ List.range 16, (Number.toDouble (n : Int)).isFinite = true := by decide +kernel
  exact hall bound (List.mem_range.mpr h)

/-- A quantized number is a quantized expression in any scope. -/
theorem quantized_bound {nt : NumberType} {n : Number} {e : Expr} (S : NameScope)
    (h : (boundExpr (.number n)).Codable nt ∧ e = (boundExpr (.number n)).coded nt) :
    e.Quantized S nt :=
  h.2 ▸ Expr.quantized_coded rfl h.1

/-- **The test of a closed request** is closed. -/
theorem Describes.isClosed {functions : List (String × Nat)} (h : r.Describes t)
    (hr : r.isClosed functions = true) : t.IsClosed r.numberType functions := by
  rw [Request.isClosed.eq_def] at hr
  split at hr
  · next reference candidate low high bound hreference hcandidate hlow hhigh hbound =>
    simp only [Bool.and_eq_true, decide_eq_true_eq] at hr
    obtain ⟨⟨href, hcand⟩, hsmall⟩ := hr
    obtain ⟨e, he, hcodable, hcoded⟩ := h.reference
    obtain ⟨e', he', hcodable', hcoded'⟩ := h.candidate
    cases hreference.symm.trans he
    cases hcandidate.symm.trans he'
    refine ⟨⟨⟨[], [], false⟩, ?_⟩, ⟨⟨[], [], false⟩, ?_⟩, ?_, ?_, ?_⟩
    · exact quantized_bound _ (hlow ▸ h.low)
    · exact quantized_bound _ (hhigh ▸ h.high)
    · rw [h.argument, hcoded]
      exact Expr.quantized_coded href hcodable
    · rw [h.argument, hcoded']
      exact Expr.quantized_coded hcand hcodable'
    · have hfinite := isFinite_toDouble hsmall
      refine ⟨Number.toDouble (bound : Int), ?_⟩
      rw [maxErrorDatum.eq_def, h.maxError, hbound]
      simp only [Number.toRat, Int.ofNat_eq_natCast, bind, Except.bind]
      generalize Number.toDouble (bound : Int) = x at hfinite
      cases x with
      | infinite => cases hfinite
      | _ => rfl
  · cases hr

end Request

end Elementary.TestCase
