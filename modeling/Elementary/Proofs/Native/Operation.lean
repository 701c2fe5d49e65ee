import Elementary.Proofs.Evaluation.Kind
import Elementary.Proofs.Native.Semantics

/-!
# The operations of the Python library and of the helpers

The emulation computes with the operations of the library themselves, but brings some results to its
precision; the helpers of a module leave them in the precision of their operand. On the data of one
precision that makes no difference, and where the helpers take a number apart and put it together
again nothing is rounded.

## Main results

* `mul_two_split`: twice the fraction of a number is its mantissa.
* `Scope.IsStandard.call`: helpers that are not hidden are called by their names.
* `evaluate_arithmeticForm`: the form of an operation gives what the operation gives.
-/

namespace Elementary

namespace Native

/-! ### The helpers and the library -/

section Library

variable {p : Precision} {op : Op} {x y : Datum} {v : Value Scalar}

/-- A datum is odd when it leaves a remainder. -/
theorem not_isZero_remainder (x : Datum) : (!x.remainder.isZero) = x.isOdd := by
  cases x with
  | nan => rfl
  | infinite negative => rfl
  | finite negative q =>
    have hiff : q - 2 * ((q / 2).floor : Rat) = 0 ↔ ((q / 2).floor : Rat) * 2 = q := by
      rw [sub_eq_zero, mul_comm, eq_comm]
    simp [Datum.remainder, Datum.isZero, Datum.isOdd, hiff]

/-- The exponent of a datum is one below that of its split. -/
theorem split_snd (x : Datum) : x.split.2 - 1 = x.exponent := by
  cases x with
  | nan => rfl
  | infinite negative => rfl
  | finite negative q =>
    simp only [Datum.split, Datum.exponent]
    split
    · rfl
    · simp

/-- Small integers are exact in every precision. -/
theorem inPrecision_natCast {n : Nat} (hn : n ≤ 2 ^ 23) :
    (Scalar.integer n).inPrecision p = .finite false n := by
  have hfield : 23 ≤ p.format.fieldSize := by cases p <;> decide
  have hmember : ∀ q : Precision, 23 ≤ q.format.fieldSize →
      (Datum.finite false (n : Rat)).IsMember q.format := fun q hq =>
    Datum.isMember_natCast (hn.trans (Nat.pow_le_pow_right two_pos hq))
  have hdouble : Scalar.ofInteger n = .finite false n := by
    rcases Nat.eq_zero_or_pos n with rfl | hpos
    · rfl
    · have hq : (0 : Rat) < n := by exact_mod_cast hpos
      have hne : ((n : Int) : Rat) ≠ 0 := by exact_mod_cast hpos.ne'
      have hneg : ¬ ((n : Int) : Rat) < 0 := by rw [Int.cast_natCast]; exact not_lt.mpr hq.le
      rw [Scalar.ofInteger, Number.toDouble, Datum.ofRat, if_neg hne, decide_eq_false hneg,
        Int.cast_natCast, Rat.abs_of_nonneg hq.le]
      exact Datum.ofMagnitude_eq (hmember .double (by decide))
  show (Scalar.ofInteger n).convert p.format = _
  rw [hdouble]
  exact Datum.convert_eq_self (hmember p hfield)

theorem isMember_split_fst (hx : x.IsMember p.format) : x.split.1.IsMember p.format := by
  cases x with
  | nan => trivial
  | infinite negative => trivial
  | finite negative q =>
    simp only [Datum.split]
    by_cases hq : q = 0
    · rw [if_pos hq]
      exact Datum.isMember_zero
    · rw [if_neg hq]
      exact hx.scaled (hx.1.lt_of_ne (Ne.symm hq)) zero_le_one le_rfl

/-- **Twice the fraction** of a datum is its mantissa, without any rounding. -/
theorem mul_two_split (hx : x.IsMember p.format) :
    x.split.1.mul p.format (.finite false 2) = x.mantissa := by
  cases x with
  | nan => rfl
  | infinite negative => cases negative <;> rfl
  | finite negative q =>
    have hmantissa := hx.mantissa
    simp only [Datum.split, Datum.mantissa] at hmantissa ⊢
    by_cases hq : q = 0
    · rw [if_pos hq, if_pos hq] at *
      simp only [Datum.mul, zero_mul, Bool.bne_false]
      exact Datum.ofMagnitude_eq hmantissa
    · rw [if_neg hq, if_neg hq] at *
      have htwice : q / pow2 (floorLog2 q + 1) * 2 = q / pow2 (floorLog2 q) := by
        have hpow := pow2_ne_zero (floorLog2 q)
        rw [pow2_add_one]
        field_simp
      simp only [Datum.mul, Bool.bne_false, htwice]
      exact Datum.ofMagnitude_eq hmantissa

/-- The helper for mantissas gives the mantissa, in the precision of the number. -/
theorem apply_mantissa (hx : x.IsMember p.format) :
    Helper.mantissa.apply [.value (.number (.binary p x))] =
      .ok (.number (.binary p x.mantissa)) := by
  have hfraction := Emulation.inPrecision_binary (isMember_split_fst hx)
  have hproduct : Emulation.arithmeticOperation .multiplication (.binary p x.split.1) (.integer 2) =
      .ok (.binary p x.mantissa) := by
    have hmeet : (Scalar.binary p x.split.1).meet (.integer 2) = p := rfl
    have htwo : (Scalar.integer 2).inPrecision p = .finite false 2 :=
      inPrecision_natCast (n := 2) (by decide)
    simp only [Emulation.arithmeticOperation, hmeet, hfraction, htwo]
    rw [Emulation.datumOperation, mul_two_split hx]
    rfl
  show (do return Value.number (← Emulation.arithmeticOperation .multiplication
    (.binary p x.split.1) (.integer 2))) = _
  rw [hproduct]
  rfl

/-- The numbers of some data. -/
def numbers (p : Precision) (ds : List Datum) : List (Value Scalar) :=
  ds.map fun d => .number (.binary p d)

/-- The library takes data as they are. -/
theorem libraryOperation_numbers (op : Op) (ds : List Datum) :
    libraryOperation op (numbers p ds) =
      Emulation.scalarOperation .double op (ds.map (.binary p)) := by
  have hmap : (numbers p ds).mapM number = .ok (ds.map (.binary p)) := by
    rw [mapM_eq_ok, numbers, List.forall₂_map_left_iff, List.forall₂_map_right_iff,
      List.forall₂_same]
    exact fun d _ => rfl
  rw [libraryOperation, hmap]
  rfl

@[simp] theorem libraryCall_scalarType (p : Precision) (vs : List (Value Scalar)) :
    libraryCall (scalarType p) vs = libraryOperation (.conversion (some (.binary p))) vs := by
  cases p <;> simp [libraryCall, scalarType?, scalarType]

@[simp] theorem libraryCall_abs (vs : List (Value Scalar)) :
    libraryCall "abs" vs = libraryOperation .absolute vs := by
  simp [libraryCall, scalarType?]

@[simp] theorem libraryCall_rint (vs : List (Value Scalar)) :
    libraryCall "rint" vs = libraryOperation .nearestInteger vs := by
  simp [libraryCall, scalarType?]

@[simp] theorem libraryCall_floor (vs : List (Value Scalar)) :
    libraryCall "floor" vs = libraryOperation .floor vs := by
  simp [libraryCall, scalarType?]

/-- Conditions are what they are in the emulation. -/
theorem isTrue_eq (p : Precision) (v : Value Scalar) :
    isTrue v = v.isTrue (Emulation.arithmetic p) := by
  cases v <;> simp only [isTrue, Value.isTrue, Emulation.arithmetic]

/-- Comparisons are what they are in the emulation. -/
theorem libraryCompare_eq {r : Relation} {v w : Value Scalar} {holds : Bool}
    (h : Emulation.compare r v w = .ok holds) : libraryCompare r v w = .ok (.truth holds) := by
  rw [libraryCompare, h]
  rfl

/-- Components are what they are in the emulation. -/
theorem component_eq {index : Int} {w : Value Scalar}
    (h : v.component (Emulation.arithmetic p) index = .ok w) : component index v = .ok w := by
  cases v with
  | tuple vs =>
    simp only [Value.component] at h
    simpa only [component, Value.component] using h
  | _ => cases h

end Library

/-! ### Scopes -/

/-- The values of objects that are values. -/
theorem mapM_toValue (values : List (Value Scalar)) :
    (values.map Object.value).mapM Object.toValue = .ok values := by
  rw [mapM_eq_ok, List.forall₂_map_left_iff, List.forall₂_same]
  exact fun v _ => rfl

/-- A scope in which the library and the helpers **are not hidden**. -/
def Scope.IsStandard (s : Scope) : Prop :=
  ∀ name ∈ reservedNames, s.localNames.contains name = false ∧ s.calls name = none

namespace Scope.IsStandard

variable {s : Scope}

theorem reaches (h : s.IsStandard) : s.reaches libraryName = true := by
  obtain ⟨hlocal, hcalls⟩ := h libraryName List.mem_cons_self
  rw [Scope.reaches, hlocal, hcalls]
  rfl

/-- A helper is called by its name. -/
theorem call (h : s.IsStandard) (helper : Helper) (arguments : List Object) :
    s.call helper.name arguments = helper.apply arguments := by
  have hmem : helper ∈ Helper.all := by
    cases helper with
    | fromBits p => cases p <;> decide
    | _ => decide
  have hname : Helper.ofName? helper.name = some helper := by
    cases helper with
    | fromBits p => cases p <;> decide
    | _ => decide
  obtain ⟨hlocal, hcalls⟩ := h helper.name (List.mem_cons_of_mem _ (List.mem_map_of_mem hmem))
  obtain ⟨-, hlibrary⟩ := h libraryName List.mem_cons_self
  rw [Scope.call, hlocal, hcalls, hname, hlibrary]
  simp

/-- A function of the library is called by its name there. -/
theorem libraryCall (h : s.IsStandard) (name : String) (values : List (Value Scalar)) :
    s.libraryCall name (values.map .value) = Native.libraryCall name values := by
  rw [Scope.libraryCall, h.reaches, mapM_toValue]
  rfl

end Scope.IsStandard

/-! ### Operations -/

section Operations

variable {p : Precision} {op : Op} {s : Scope} {env : Bindings Scalar} {ts : List Term}
  {ds : List Datum} {v : Value Scalar} {a b c t : Term} {x y z : Datum}

theorem evaluateAll_eq_mapM (ts : List Term) :
    Term.evaluateAll s env ts = ts.mapM (Term.evaluate s env) := by
  induction ts with
  | nil => rfl
  | cons t ts ih => rw [Term.evaluateAll, ih, List.mapM_cons]

theorem evaluateAll_singleton {o : Object} (h : a.evaluate s env = .ok o) :
    Term.evaluateAll s env [a] = .ok [o] := by
  rw [Term.evaluateAll, h]
  rfl

/-- **A helper applied** to what some terms stand for. -/
theorem evaluate_helper (hs : s.IsStandard) (helper : Helper) {objects : List Object}
    (hts : Term.evaluateAll s env ts = .ok objects) (h : helper.apply objects = .ok v) :
    (Term.callOf helper.name ts).evaluate s env = .ok (.value v) := by
  show (do return Object.value (← s.call helper.name (← Term.evaluateAll s env ts))) = _
  rw [hts]
  show (do return Object.value (← s.call helper.name objects)) = _
  rw [hs.call, h]
  rfl

/-- **A function of the library applied** to the values of some terms. -/
theorem evaluate_libraryCall (hs : s.IsStandard) (name : String) {vs : List (Value Scalar)}
    (hts : Term.evaluateAll s env ts = .ok (vs.map .value)) (h : libraryCall name vs = .ok v) :
    (Term.call (.library name) ts).evaluate s env = .ok (.value v) := by
  show (do return Object.value (← s.libraryCall name (← Term.evaluateAll s env ts))) = _
  rw [hts]
  show (do return Object.value (← s.libraryCall name (vs.map .value))) = _
  rw [hs.libraryCall, h]
  rfl

/-- A scalar type of the library is denoted by its name there. -/
theorem evaluate_scalarType (hs : s.IsStandard) (p : Precision) :
    (Term.library (scalarType p)).evaluate s env = .ok (.scalarType p) := by
  have hlibrary : s.library (scalarType p) = .ok p := by
    rw [Scope.library, hs.reaches]
    cases p <;> rfl
  show (do return Object.scalarType (← s.library (scalarType p))) = _
  rw [hlibrary]
  rfl

/-- The form of an **operation that gives a number**, on terms for its operands. -/
def arithmeticForm (p : Precision) (op : Op) (ts : List Term) : Except Failure Term :=
  match op, ts with
  | .conversion format, [t] => do return .call (← conversionType format) [t]
  | op, ts => operation ⟨p, false⟩ op ts

/-- A term that stands for a datum. -/
def Denotes (s : Scope) (env : Bindings Scalar) (p : Precision) (t : Term) (d : Datum) : Prop :=
  t.evaluate s env = .ok (.value (.number (.binary p d)))

/-- **The operations on one number.** -/
theorem evaluate_unary (hs : s.IsStandard) (hop : Emulation.IsArithmetic p op)
    (hx : x.IsMember p.format) (ht : Denotes s env p a x) (hform : arithmeticForm p op [a] = .ok t)
    (h : Emulation.scalarOperation p op [.binary p x] = .ok v) :
    t.evaluate s env = .ok (.value v) := by
  have hargs : Term.evaluateAll s env [a] = .ok ((numbers p [x]).map .value) :=
    evaluateAll_singleton ht
  cases hop with
  | negation =>
    cases hform
    cases h
    rw [Term.evaluate, ht]
    rfl
  | conversion =>
    cases hform
    refine evaluate_libraryCall hs _ hargs ?_
    rw [libraryCall_scalarType, libraryOperation_numbers]
    exact h
  | absolute =>
    cases hform
    refine evaluate_libraryCall hs _ hargs ?_
    rw [libraryCall_abs, libraryOperation_numbers]
    exact h
  | nearestInteger =>
    cases hform
    refine evaluate_libraryCall hs _ hargs ?_
    rw [libraryCall_rint, libraryOperation_numbers]
    exact h
  | floor =>
    cases hform
    refine evaluate_libraryCall hs _ hargs ?_
    rw [libraryCall_floor, libraryOperation_numbers]
    exact h
  | exponentInsertion =>
    cases hform
    have hpair : Term.evaluateAll s env [a, .library (scalarType p)] =
        .ok [.value (.number (.binary p x)), .scalarType p] := by
      rw [Term.evaluateAll, ht, Term.evaluateAll, evaluate_scalarType hs]
      rfl
    exact evaluate_helper hs .exponentInsertion hpair h
  | exponentExtraction =>
    cases hform
    refine evaluate_helper hs .exponent hargs ?_
    rw [← h, numbers]
    show Helper.exponent.apply [.value (.number (.binary p x))] = _
    rw [Helper.apply, split_snd]
    rfl
  | mantissaExtraction =>
    cases hform
    refine evaluate_helper hs .mantissa hargs ?_
    rw [← h]
    show Helper.mantissa.apply [.value (.number (.binary p x))] = _
    rw [apply_mantissa hx, Emulation.scalarOperation, Scalar.typedFrom_binary, p.wider_self]
  | _ => cases h

/-- **The operations on two numbers.** -/
theorem evaluate_binary (hop : Emulation.IsArithmetic p op) (ha : Denotes s env p a x)
    (hb : Denotes s env p b y) (hform : arithmeticForm p op [a, b] = .ok t)
    (h : Emulation.scalarOperation p op [.binary p x, .binary p y] = .ok v) :
    t.evaluate s env = .ok (.value v) := by
  have hbinary : ∀ operator : Operator,
      Emulation.scalarOperation .double operator.op [.binary p x, .binary p y] = .ok v →
        (Term.binary operator a b).evaluate s env = .ok (.value v) := by
    intro operator h
    have hlibrary : libraryOperation operator.op (numbers p [x, y]) = .ok v := by
      rw [libraryOperation_numbers]
      exact h
    rw [Term.evaluate, ha, hb]
    show (do return Object.value (← libraryOperation operator.op (numbers p [x, y]))) = _
    rw [hlibrary]
    rfl
  cases hop with
  | addition => cases hform; exact hbinary .add h
  | subtraction => cases hform; exact hbinary .sub h
  | multiplication => cases hform; exact hbinary .mul h
  | division => cases hform; exact hbinary .div h
  | _ => cases h

/-- **The operation on three numbers** rounds the product as well as the sum. -/
theorem evaluate_ternary (hs : s.IsStandard) (hop : Emulation.IsArithmetic p op)
    (ha : Denotes s env p a x) (hb : Denotes s env p b y) (hc : Denotes s env p c z)
    (hform : arithmeticForm p op [a, b, c] = .ok t)
    (h : Emulation.scalarOperation p op [.binary p x, .binary p y, .binary p z] = .ok v) :
    t.evaluate s env = .ok (.value v) := by
  cases hop with
  | fusedMultiplyAdd =>
    cases hform
    obtain ⟨product, hproduct, hsum⟩ := bind_eq_ok.mp h
    have hargs : Term.evaluateAll s env [a, b, c] = .ok ((numbers p [x, y, z]).map .value) := by
      rw [Term.evaluateAll, ha, Term.evaluateAll, hb, Term.evaluateAll, hc]
      rfl
    have hmul : libraryOperation .multiplication (numbers p [x, y]) = .ok (.number product) := by
      rw [libraryOperation_numbers]
      exact bind_eq_ok.mpr ⟨product, hproduct, rfl⟩
    refine evaluate_helper hs .mulAdd hargs ?_
    exact bind_eq_ok.mpr ⟨.number product, hmul, hsum⟩
  | _ => cases h

/-- **The operations agree** on data: what the emulation gives, the form of the operation gives. -/
theorem evaluate_arithmeticForm {vs : List (Value Scalar)} (hs : s.IsStandard)
    (hop : Emulation.IsArithmetic p op) (hvs : ∀ v ∈ vs, v.IsData p)
    (hts : Term.evaluateAll s env ts = .ok (vs.map .value))
    (hform : arithmeticForm p op ts = .ok t) (h : Emulation.operation p op vs = .ok v) :
    t.evaluate s env = .ok (.value v) := by
  rw [Emulation.operation_data hop hvs] at h
  obtain ⟨xs, hxs, h⟩ := bind_eq_ok.mp h
  obtain ⟨ds, hds, rfl, rfl⟩ := Emulation.exists_data hvs hxs
  rw [evaluateAll_eq_mapM, mapM_eq_ok, List.map_map, List.forall₂_map_right_iff] at hts
  -- no operation takes none or more than three operands
  rcases hts with _ | ⟨ha, _ | ⟨hb, _ | ⟨hc, _ | _⟩⟩⟩
  · cases hop <;> cases h
  · exact evaluate_unary hs hop (hds _ (by simp)) ha hform h
  · exact evaluate_binary hop ha hb hform h
  · exact evaluate_ternary hs hop ha hb hc hform h
  · cases hop <;> cases h

end Operations

end Native

end Elementary
