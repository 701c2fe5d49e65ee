import Elementary.Expr.Quantize
import Elementary.Proofs.Computation

/-!
# Numerals and their codings

A number that stands in an expression has a coding for a number type, or it is refused. It is
rejected when it is not finite or overflows. But the report of an overflow shows the exact value of
the number, and the report of a coding shows the number; an integer of more than `Text.digitLimit`
digits can neither be shown nor read, and then the failure is another one.

## Main definitions

* `Number.IsNumeral`: the written numbers that denote a number.
* `NumberType.Rejects`: a number that is not finite or overflows.
* `NumberType.Overlong`: a number that has too many digits to be read or reported.
* `NumberType.Refuses`: with which failure a number is refused.
* `NumberType.codingOutcome`: the coding of a number, or why it has none.

## Main results

* `NumberType.codingOutcome_cases`: a numeral has a coding, is rejected or is overlong.
* `NumberType.refuses_iff`: the failure of a numeral is the one with which it is refused.
* `NumberType.quantizeNumber_ends`: the quantization of one number.
-/

namespace Elementary

open Elementary.Computation

/-! ### The numbers that can stand in an expression -/

/-- A text is a **well-formed literal** when it has the parts of one, with a denominator that is not
zero. -/
def Literal.IsWellFormed (s : String) : Prop :=
  ∃ p, parts? (Text.strip s.toList) = some p ∧ p.denominator ≠ 0

/-- A well-formed literal denotes a rational, unless a row of its digits is too long. -/
theorem Literal.IsWellFormed.cases {s : String} (h : IsWellFormed s) :
    (∃ q, rational s = .ok q) ∨ ∃ given, rational s = .error (.tooManyDigits given) := by
  obtain ⟨p, hparts, hden⟩ := h
  rw [rational, hparts]
  cases hlong : p.overlong? with
  | some given => exact Or.inr ⟨some given, by simp only [hlong]⟩
  | none =>
    refine Or.inl ⟨(p.numerator : Rat) / p.denominator * (10 : Rat) ^ p.exponent, ?_⟩
    simp only [hlong, if_neg hden]

namespace Number

variable {v : Number} {q : Rat}

/-- A written number is a **numeral** unless it denotes no number at all: when nothing was written,
or a sequence, or a text that is no well-formed literal. -/
def IsNumeral : Number → Prop
  | .absent | .sequence => False
  | .literal s => Literal.IsWellFormed s
  | _ => True

/-- A number with an exact value is finite. -/
theorem isFinite_of_toRat (hq : v.toRat = .ok q) : v.isFinite = .ok true := by
  cases v with
  | absent | sequence => cases hq
  | truth _ | integer _ | ratio _ | literal _ => rfl
  | double x | single x =>
    cases x with
    | nan | infinite negative => cases hq
    | finite negative q => rfl
  | big x digits =>
    cases x with
    | nan | infinite negative => cases hq
    | finite x => rfl

/-- A number that is not finite has no exact value. -/
theorem exists_of_isFinite_eq_false (h : v.isFinite = .ok false) :
    ∃ text, v.toRat = .error (.notExact text) := by
  cases v with
  | absent | sequence | truth _ | integer _ | ratio _ | literal _ => cases h
  | double x | single x =>
    cases x with
    | nan | infinite negative => exact ⟨_, rfl⟩
    | finite negative q => cases h
  | big x digits =>
    cases x with
    | nan | infinite negative => exact ⟨_, rfl⟩
    | finite x => cases h

/-- **A numeral** is not finite, or it has an exact value, or too many digits to be read. -/
theorem IsNumeral.cases (hv : v.IsNumeral) :
    v.isFinite = .ok false ∨ (v.isFinite = .ok true ∧
      ((∃ q, v.toRat = .ok q) ∨ ∃ given, v.toRat = .error (.tooManyDigits given))) := by
  cases v with
  | absent | sequence => exact hv.elim
  | truth b => exact Or.inr ⟨rfl, Or.inl ⟨_, rfl⟩⟩
  | integer n => exact Or.inr ⟨rfl, Or.inl ⟨_, rfl⟩⟩
  | ratio q => exact Or.inr ⟨rfl, Or.inl ⟨_, rfl⟩⟩
  | literal s => exact Or.inr ⟨rfl, Literal.IsWellFormed.cases hv⟩
  | double x | single x =>
    cases x with
    | nan | infinite negative => exact Or.inl rfl
    | finite negative q => exact Or.inr ⟨rfl, Or.inl ⟨_, rfl⟩⟩
  | big x digits =>
    cases x with
    | nan | infinite negative => exact Or.inl rfl
    | finite x => exact Or.inr ⟨rfl, Or.inl ⟨_, rfl⟩⟩

/-- A rational can be shown, or it has too many digits. -/
theorem shownRat_cases (q : Rat) :
    (∃ text, shownRat q = .ok text ∧ isShowable q = true) ∨
      (shownRat q = .error (.tooManyDigits none) ∧ isShowable q = false) := by
  rw [shownRat]
  cases isShowable q with
  | true => exact Or.inl ⟨_, rfl, rfl⟩
  | false => exact Or.inr ⟨rfl, rfl⟩

/-- A number can be shown in a message, or it has too many digits. -/
theorem shown_cases (v : Number) :
    (∃ text, v.shown = .ok text) ∨ v.shown = .error (.tooManyDigits none) := by
  cases v with
  | integer n =>
    rcases shownRat_cases n with ⟨text, h, -⟩ | ⟨h, -⟩
    · exact Or.inl ⟨text, h⟩
    · exact Or.inr h
  | ratio q =>
    rcases shownRat_cases q with ⟨text, h, -⟩ | ⟨h, -⟩
    · exact Or.inl ⟨text, h⟩
    · exact Or.inr h
  | _ => exact Or.inl ⟨_, rfl⟩

end Number

/-- The coding in a precision is that of the format. -/
theorem Precision.encode_eq_ok {p : Precision} {q : Rat} {c : Nat}
    (h : p.format.encode? q = some c) : p.encode q = .ok c := by
  rw [encode, h]

/-- An exact value has a coding, or it overflows, and then may have too many digits to be shown. -/
theorem Precision.encode_cases (p : Precision) (q : Rat) :
    (∃ c, p.encode q = .ok c) ∨ (∃ text, p.encode q = .error (.overflow text p.name)) ∨
      p.encode q = .error (.tooManyDigits none) := by
  rw [encode]
  cases p.format.encode? q with
  | some c => exact Or.inl ⟨c, rfl⟩
  | none =>
    rcases Number.shownRat_cases q with ⟨text, h, -⟩ | ⟨h, -⟩
    · exact Or.inr (Or.inl ⟨text, by rw [h]; rfl⟩)
    · exact Or.inr (Or.inr (by rw [h]; rfl))

/-- The names of the mathematical constants. -/
def BigFloat.constantNames : List String := ["pi", "e", "ln2", "ln10", "log2e", "sqrt2"]

/-- An operation **has a numeral** when the number it stands for is one, its name being known if it
is a named constant. -/
def Op.HasNumeral : Op → Prop
  | .constant v => v.IsNumeral
  | .mathConstant name => name ∈ BigFloat.constantNames
  | _ => True

/-- The known names are those with a value, at every precision. -/
theorem BigFloat.exists_constant_eq_ok {name : String} (h : name ∈ constantNames) (bits : Nat) :
    ∃ x, constant bits name = .ok x := by
  simp only [constantNames, List.mem_cons, List.not_mem_nil, or_false] at h
  rcases h with rfl | rfl | rfl | rfl | rfl | rfl <;> exact ⟨_, rfl⟩

/-- A name with a value is a known one. -/
theorem BigFloat.mem_constantNames {bits : Nat} {name : String} {x : BigFloat}
    (h : constant? bits name = some x) : name ∈ constantNames := by
  simp only [constant?] at h
  split at h
  case h_7 => cases h
  all_goals simp [constantNames]

/-- An operation that stands for a number takes no operands. -/
theorem Op.arity_of_number? {op : Op} {n : Except Failure Number} (h : op.number? = some n) :
    op.arity = some 0 := by
  cases op <;> first | rfl | cases h

/-- An operation with a numeral stands for nothing, or for a numeral. -/
theorem Op.HasNumeral.number?_cases {op : Op} (h : op.HasNumeral) :
    op.number? = none ∨ ∃ v, op.number? = some (.ok v) ∧ v.IsNumeral := by
  cases op with
  | constant v => exact Or.inr ⟨v, rfl, h⟩
  | mathConstant name =>
    obtain ⟨x, hx⟩ := BigFloat.exists_constant_eq_ok h BigFloat.constantBits
    refine Or.inr ⟨.big x (shownDigits BigFloat.constantBits), ?_, trivial⟩
    rw [Op.number?, Number.ofConstant, hx]
    rfl
  | _ => exact Or.inl rfl

/-! ### How a number is coded or refused -/

namespace NumberType

variable {nt : NumberType} {n : Except Failure Number} {v : Number} {q : Rat} {c : Nat}

/-- The coding of the number that is nearest to a number, if there is one. -/
def coding? (nt : NumberType) (v : Number) : Option Nat :=
  v.toRat.toOption.bind nt.precision.format.encode?

/-- The numbers that a number type **cannot hold**: those that are not finite, and those whose
coding overflows. -/
def Rejects (nt : NumberType) (v : Number) : Prop :=
  v.isFinite = .ok false ∨ ∃ q, v.toRat = .ok q ∧ nt.precision.format.encode? q = none

/-- The numbers with **too many digits** for a number type: those with a row of digits that cannot
be read, whose length is given, and those with digits that cannot be shown, which are those of the
exact value if it overflows, or else those of the number. -/
def Overlong (nt : NumberType) (v : Number) (given : Option Nat) : Prop :=
  v.toRat = .error (.tooManyDigits given) ∨
    (given = none ∧ ∃ q, v.toRat = .ok q ∧
      ((nt.precision.format.encode? q = none ∧ Number.isShowable q = false) ∨
        (nt.precision.format.encode? q ≠ none ∧ v.shown = .error (.tooManyDigits none))))

/-- **How a number is refused**: when it has too many digits, the transformation fails; when it is
rejected otherwise, the quantization fails and names it. -/
inductive Refuses (nt : NumberType) (v : Number) : Failure → Prop
  | rejected (h : nt.Rejects v) (hshort : ∀ given, ¬ nt.Overlong v given) :
    Refuses nt v (.quantization v.text)
  | overlong (given : Option Nat) (h : nt.Overlong v given) :
    Refuses nt v (.transformation (Failure.tooManyDigits given).message)

/-- The coding of a number, or **why it has none**. -/
def codingOutcome (nt : NumberType) (v : Number) : Except Failure Nat :=
  match v.isFinite, v.toRat with
  | .error f, _ => .error f
  | .ok false, _ => .error (.quantization v.text)
  | .ok true, .error f => .error f
  | .ok true, .ok q =>
    match nt.precision.encode q with
    | .ok c => v.shown.map fun _ => c
    | .error (.overflow _ _) => .error (.quantization v.text)
    | .error f => .error f

/-- A number with a coding has an exact value, and its coding is that of the value. -/
theorem coding?_eq_some_iff :
    nt.coding? v = some c ↔ ∃ q, v.toRat = .ok q ∧ nt.precision.format.encode? q = some c := by
  rw [coding?]
  cases v.toRat <;> simp [Except.toOption]

/-- A number that is not finite is named in the failure. -/
theorem codingOutcome_of_not_finite (h : v.isFinite = .ok false) :
    nt.codingOutcome v = .error (.quantization v.text) := by
  rw [codingOutcome, h]

/-- A number that can be shown has the coding of its exact value. -/
theorem codingOutcome_of_encode? (hq : v.toRat = .ok q)
    (hc : nt.precision.format.encode? q = some c) :
    nt.codingOutcome v = v.shown.map fun _ => c := by
  rw [codingOutcome, Number.isFinite_of_toRat hq, hq]
  simp only [Precision.encode_eq_ok hc]

/-- A number that overflows is named in the failure if the overflow can be shown. -/
theorem codingOutcome_of_overflow (hq : v.toRat = .ok q)
    (hc : nt.precision.format.encode? q = none) :
    nt.codingOutcome v = .error (if Number.isShowable q then .quantization v.text
      else .tooManyDigits none) := by
  rw [codingOutcome, Number.isFinite_of_toRat hq, hq]
  simp only [Precision.encode, hc, Number.shownRat]
  cases Number.isShowable q <;> rfl

/-- A number is coded only if it has an exact value and that value a coding. -/
theorem exists_encode?_of_codingOutcome (h : nt.codingOutcome v = .ok c) :
    ∃ q d, v.toRat = .ok q ∧ nt.precision.format.encode? q = some d := by
  rcases hfinite : v.isFinite with f | _ | _ <;> rcases hq : v.toRat with g | q
  case ok.true.ok =>
    cases hd : nt.precision.format.encode? q with
    | some d => exact ⟨q, d, rfl, hd⟩
    | none => cases h.symm.trans (codingOutcome_of_overflow hq hd)
  all_goals
    rw [codingOutcome, hfinite, hq] at h
    cases h

/-- The coding of zero. -/
theorem codingOutcome_zero (nt : NumberType) : nt.codingOutcome (.integer 0) = .ok 0 := by
  obtain ⟨p, v⟩ := nt
  cases p <;> cases v <;> decide +kernel

/-- A coding that is found is that of the exact value. -/
theorem coding?_of_codingOutcome (h : nt.codingOutcome v = .ok c) : nt.coding? v = some c := by
  obtain ⟨q, d, hq, hd⟩ := exists_encode?_of_codingOutcome h
  rw [codingOutcome_of_encode? hq hd] at h
  rcases v.shown_cases with ⟨text, hshown⟩ | hshown
  · rw [hshown] at h
    exact coding?_eq_some_iff.mpr ⟨q, hq, hd.trans (congrArg some (Except.ok.inj h))⟩
  · rw [hshown] at h
    cases h

/-- A number whose exact value has a coding is not rejected. -/
theorem not_rejects_of_encode? (hq : v.toRat = .ok q)
    (hc : nt.precision.format.encode? q = some c) : ¬ nt.Rejects v := by
  rintro (hfinite | ⟨q', hq', hc'⟩)
  · cases hfinite.symm.trans (Number.isFinite_of_toRat hq)
  · obtain rfl := Except.ok.inj (hq.symm.trans hq')
    cases hc.symm.trans hc'

/-- A number with an exact value can be read, and has too many digits only for being shown. -/
theorem overlong_iff (hq : v.toRat = .ok q) {given : Option Nat} :
    nt.Overlong v given ↔ given = none ∧
      ((nt.precision.format.encode? q = none ∧ Number.isShowable q = false) ∨
        (nt.precision.format.encode? q ≠ none ∧ v.shown = .error (.tooManyDigits none))) := by
  constructor
  · rintro (h | ⟨hnone, q', hq', h⟩)
    · cases hq.symm.trans h
    · obtain rfl := Except.ok.inj (hq.symm.trans hq')
      exact ⟨hnone, h⟩
  · rintro ⟨hnone, h⟩
    exact Or.inr ⟨hnone, q, hq, h⟩

/-- A number that is not finite does not have too many digits. -/
theorem not_overlong_of_not_finite (h : v.isFinite = .ok false) (given : Option Nat) :
    ¬ nt.Overlong v given := by
  obtain ⟨text, htext⟩ := Number.exists_of_isFinite_eq_false h
  rintro (hlong | ⟨-, q, hq, -⟩)
  · cases htext.symm.trans hlong
  · cases htext.symm.trans hq

/-- **A numeral** has a coding, or is rejected, or has too many digits, and only one of these. -/
theorem codingOutcome_cases (nt : NumberType) (hv : v.IsNumeral) :
    ((∃ c, nt.codingOutcome v = .ok c) ∧ ¬ nt.Rejects v ∧ ∀ given, ¬ nt.Overlong v given) ∨
    (nt.codingOutcome v = .error (.quantization v.text) ∧ nt.Rejects v ∧
      ∀ given, ¬ nt.Overlong v given) ∨
    ∃ given, nt.codingOutcome v = .error (.tooManyDigits given) ∧ nt.Overlong v given := by
  rcases hv.cases with hfinite | ⟨hfinite, ⟨q, hq⟩ | ⟨given, hlong⟩⟩
  · exact Or.inr (Or.inl ⟨codingOutcome_of_not_finite hfinite, Or.inl hfinite,
      not_overlong_of_not_finite hfinite⟩)
  · cases hc : nt.precision.format.encode? q with
    | some c =>
      have houtcome := codingOutcome_of_encode? hq hc
      rcases v.shown_cases with ⟨text, hshown⟩ | hshown
      · refine Or.inl ⟨⟨c, by rw [houtcome, hshown]; rfl⟩, not_rejects_of_encode? hq hc, ?_⟩
        simp [overlong_iff hq, hc, hshown]
      · refine Or.inr (Or.inr ⟨none, by rw [houtcome, hshown]; rfl, (overlong_iff hq).mpr ?_⟩)
        simp [hc, hshown]
    | none =>
      have houtcome := codingOutcome_of_overflow hq hc
      cases hshow : Number.isShowable q with
      | true =>
        refine Or.inr (Or.inl ⟨by rw [houtcome, hshow]; rfl, Or.inr ⟨q, hq, hc⟩, ?_⟩)
        simp [overlong_iff hq, hc, hshow]
      | false =>
        refine Or.inr (Or.inr ⟨none, by rw [houtcome, hshow]; rfl, (overlong_iff hq).mpr ?_⟩)
        simp [hc, hshow]
  · refine Or.inr (Or.inr ⟨given, ?_, Or.inl hlong⟩)
    rw [codingOutcome, hfinite, hlong]

/-- A number has too many digits in one way only. -/
theorem Overlong.given_eq {given given' : Option Nat} (h : nt.Overlong v given)
    (h' : nt.Overlong v given') : given = given' := by
  rcases h with h | ⟨rfl, q, hq, h⟩
  · rcases h' with h' | ⟨-, q, hq, -⟩
    · cases h.symm.trans h'
      rfl
    · cases h.symm.trans hq
  · exact ((overlong_iff hq).mp h').1.symm

/-- **The failure of a numeral** refuses it, and no other failure does. -/
theorem refuses_iff (hv : v.IsNumeral) {g : Failure} :
    nt.Refuses v g ↔
      ∃ f, nt.codingOutcome v = .error f ∧ g = (Node.transformationFailure f).getD f := by
  constructor
  · rintro (⟨hreject, hshort⟩ | ⟨given, hlong⟩)
    · rcases codingOutcome_cases nt hv with ⟨-, hnot, -⟩ | ⟨h, -, -⟩ | ⟨given, -, hlong⟩
      · exact absurd hreject hnot
      · exact ⟨_, h, rfl⟩
      · exact absurd hlong (hshort given)
    · rcases codingOutcome_cases nt hv with ⟨-, -, hshort⟩ | ⟨-, -, hshort⟩ | ⟨given', h, hlong'⟩
      · exact absurd hlong (hshort given)
      · exact absurd hlong (hshort given)
      · exact ⟨_, h, by rw [hlong.given_eq hlong']; rfl⟩
  · rintro ⟨f, hf, rfl⟩
    rcases codingOutcome_cases nt hv with ⟨⟨c, hc⟩, -⟩ | ⟨h, hreject, hshort⟩ | ⟨given, h, hlong⟩
    · cases hc.symm.trans hf
    · obtain rfl := Except.error.inj (hf.symm.trans h)
      exact .rejected hreject hshort
    · obtain rfl := Except.error.inj (hf.symm.trans h)
      exact .overlong given hlong

/-- The failure of a number that has no coding. -/
def failure? (nt : NumberType) (n : Except Failure Number) : Option Failure :=
  match n.bind nt.codingOutcome with
  | .error f => some f
  | .ok _ => none

theorem failure?_eq_none_iff :
    nt.failure? n = none ↔ ∃ v c, n = .ok v ∧ nt.codingOutcome v = .ok c := by
  rw [failure?]
  cases n with
  | error f => simp [Except.bind]
  | ok v => cases h : nt.codingOutcome v <;> simp [Except.bind, h]

theorem failure?_ok_eq_some_iff {f : Failure} :
    nt.failure? (.ok v) = some f ↔ nt.codingOutcome v = .error f := by
  rw [failure?]
  cases h : nt.codingOutcome v <;> simp [Except.bind, h]

/-- The coding of a number is found, or the failure that tells why it has none. -/
theorem codingOf_ends (nt : NumberType) (v : Number) (events : Array Event) :
    Ends (nt.codingOf v) events (fun c _ => nt.codingOutcome v = .ok c)
      fun f _ => nt.codingOutcome v = .error f := by
  rw [codingOf, codingOutcome]
  rcases v.isFinite with f | _ | _
  · exact .throw rfl
  · exact .of_error rfl rfl
  · rcases v.toRat with f | q
    · exact .throw rfl
    · show Ends (nt.afterEncoding v (nt.precision.encode q)) events _ _
      rcases nt.precision.encode_cases q with ⟨c, h⟩ | ⟨text, h⟩ | h <;> simp only [h]
      · rw [afterEncoding]
        cases v.shown with
        | error f => exact .throw rfl
        | ok text => exact .of_ok rfl rfl
      · exact .of_error rfl rfl
      · exact .throw rfl

/-- **One constant is quantized** to the expression of its coding. -/
theorem quantizeNumber_ends (nt : NumberType) (n : Except Failure Number) (events : Array Event) :
    Ends (do nt.quantizeNumber (← Traced.ofExcept n)) events
      (fun e _ => ∃ v c, n = .ok v ∧ nt.codingOutcome v = .ok c ∧ e = nt.literal c)
      fun f _ => nt.failure? n = some f := by
  cases n with
  | error f => exact .throw rfl
  | ok v =>
    have hcoding := codingOf_ends nt v events
    refine (hcoding.mono (fun c s h => h) fun f s h => failure?_ok_eq_some_iff.mpr h).bind ?_
    exact fun c s hc => .pure ⟨v, c, rfl, hc, rfl⟩

/-- A numeral that does not fail is not refused. -/
theorem failure?_eq_none_iff_forall (hv : v.IsNumeral) :
    nt.failure? (.ok v) = none ↔ ∀ g, ¬ nt.Refuses v g := by
  constructor
  · intro h g hg
    obtain ⟨f, hf, -⟩ := (refuses_iff hv).mp hg
    cases h.symm.trans (failure?_ok_eq_some_iff.mpr hf)
  · intro h
    cases hfailure : nt.failure? (.ok v) with
    | none => rfl
    | some f =>
      have houtcome := failure?_ok_eq_some_iff.mp hfailure
      exact absurd ((refuses_iff hv).mpr ⟨f, houtcome, rfl⟩) (h _)

end NumberType

end Elementary
