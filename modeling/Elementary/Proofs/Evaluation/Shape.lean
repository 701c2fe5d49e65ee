import Elementary.Proofs.Evaluation.Evaluators

/-!
# Expressions of exact operations that have a value

An expression fails in both arithmetics when it takes a tuple for a number or a number for a tuple,
when it selects a component that there is not, and when a variable has no value. Shapes tell the
numbers from the tuples; an expression of exact operations that has a shape has a value of this
shape, the same in the reference arithmetic and in the emulation.

## Main definitions

* `Shape`, `Expr.HasShape`: whether an expression is a number, or a tuple of what.
* `Evaluators.Yields`: the values of a shape that the two evaluations agree on.

## Main results

* `Evaluators.yields_of_hasShape`: an expression with a shape has a value of this shape.
* `Evaluators.agree`: how the two evaluations end.
-/

namespace Elementary

variable {p : Precision}

/-- The **shape** of a value: a number, truth values among them, or a tuple of some shapes. -/
inductive Shape where
  | number
  | tuple (components : List Shape)

/-- Where a component stands; a negative index counts from the end. -/
def componentPlace (index : Int) (count : Nat) : Int :=
  if index < 0 then index + count else index

/-- An expression **has a shape** when numbers are used as numbers in it, tuples as tuples, and only
components are selected that there are; `bound` are the variables that have a value. -/
inductive Expr.HasShape (bound : List String) : Expr → Shape → Prop
  | var {name : String} {f : Option ResultFormat} (h : name ∈ bound) :
    HasShape bound (.node (.var name f) []) .number
  | fromBits {f : Option ResultFormat} {e : Expr} :
    HasShape bound (.node (.fromBits f) [e]) .number
  | splat {f : Option ResultFormat} {e : Expr} {σ : Shape} (he : HasShape bound e σ) :
    HasShape bound (.node (.splat f) [e]) σ
  | operation {op : Op} {e : Expr} (hop : op.TakesNumber) (he : HasShape bound e .number) :
    HasShape bound (.node op [e]) .number
  | comparison {r : Relation} {a b : Expr} {σ : Shape} (ha : HasShape bound a σ)
    (hb : HasShape bound b σ) : HasShape bound (.node (.comparison r) [a, b]) .number
  | select {c a b : Expr} {σ τ : Shape} (hc : HasShape bound c τ) (ha : HasShape bound a σ)
    (hb : HasShape bound b σ) : HasShape bound (.node .select [c, a, b]) σ
  | tuple {es : List Expr} {σs : List Shape} (hes : List.Forall₂ (HasShape bound) es σs) :
    HasShape bound (.node .tuple es) (.tuple σs)
  | tupleSelection {index : Int} {e : Expr} {σs : List Shape} {σ : Shape}
    (he : HasShape bound e (.tuple σs)) (hplace : 0 ≤ componentPlace index σs.length)
    (hσ : σs[(componentPlace index σs.length).toNat]? = some σ) :
    HasShape bound (.node (.tupleSelection index) [e]) σ

/-- A value **has a shape**. -/
inductive Value.HasShape : Value Quantity → Shape → Prop
  | number (a : Quantity) : HasShape (.number a) .number
  | truth (b : Bool) : HasShape (.truth b) .number
  | tuple {vs : List (Value Quantity)} {σs : List Shape} (h : List.Forall₂ HasShape vs σs) :
    HasShape (.tuple vs) (.tuple σs)

namespace Value

variable {v v' : Value Quantity} {w w' : Value Scalar} {σ : Shape}

/-- What has the shape of a number is a number in both arithmetics. -/
theorem HasShape.exists_number (h : v.HasShape .number) (hvw : v.Agree p w) :
    ∃ a s, Quantity.ofValue v = .ok a ∧ Scalar.ofValue w = .ok s ∧ SameNumber p a s := by
  obtain hok | ⟨f, g, hf, -⟩ := hvw.operand.cases
  · exact hok
  · cases h <;> cases hf

/-- **Values of one shape** can be compared. -/
theorem HasShape.exists_order : ∀ (v v' : Value Quantity) (w w' : Value Scalar) (σ : Shape),
    v.Agree p w → v'.Agree p w' → v.HasShape σ → v'.HasShape σ →
      ∃ o, order Reference.order v v' = .ok o := by
  refine order.induct
    (fun v v' => ∀ (w w' : Value Scalar) (σ : Shape), v.Agree p w → v'.Agree p w' →
      v.HasShape σ → v'.HasShape σ → ∃ o, order Reference.order v v' = .ok o)
    (fun vs vs' => ∀ (ws ws' : List (Value Scalar)) (σs : List Shape),
      List.Forall₂ (Agree p) vs ws → List.Forall₂ (Agree p) vs' ws' →
        List.Forall₂ HasShape vs σs → List.Forall₂ HasShape vs' σs →
          ∃ o, orderAll Reference.order vs vs' = .ok o)
    ?tuples ?others ?nil ?shorter ?longer ?nothing ?cons
  case tuples =>
    intro vs vs' ih w w' σ hw hw' hσ hσ'
    cases hw with
    | tuple hw =>
      cases hw' with
      | tuple hw' =>
        cases hσ with
        | tuple hσ =>
          cases hσ' with
          | tuple hσ' =>
            rw [order]
            exact ih _ _ _ hw hw' hσ hσ'
  case others =>
    intro v v' hvv' w w' σ hw hw' hσ hσ'
    rw [order.eq_2 _ v v' hvv']
    have hnumber : v.HasShape .number ∧ v'.HasShape .number := by
      cases hσ with
      | number | truth => exact ⟨by constructor, hσ'⟩
      | tuple =>
        cases hσ' with
        | tuple => exact (hvv' _ _ rfl rfl).elim
    obtain ⟨a, s, ha, -, q, -, haq, -⟩ := hnumber.1.exists_number hw
    obtain ⟨b, t, hb, -, q', -, hbq, -⟩ := hnumber.2.exists_number hw'
    exact ⟨_, Reference.order_exact ha hb haq hbq⟩
  case nil =>
    intro ws ws' σs _ _ _ _
    exact ⟨_, rfl⟩
  case shorter =>
    intro v' vs' ws ws' σs _ _ _ _
    exact ⟨_, rfl⟩
  case longer =>
    intro v vs ws ws' σs _ _ _ _
    exact ⟨_, rfl⟩
  case nothing =>
    intro vs vs' ih ws ws' σs hws _ _ _
    cases hws with
    | cons h _ => cases h
  case cons =>
    intro v vs v' vs' hvv' ih ihs ws ws' σs hws hws' hσs hσs'
    cases hws with
    | cons hw hws =>
      cases hws' with
      | cons hw' hws' =>
        cases hσs with
        | cons hσ hσs =>
          cases hσs' with
          | cons hσ' hσs' =>
            rw [orderAll.eq_5 _ v vs v' vs' hvv']
            obtain ⟨o, ho⟩ := ih _ _ _ hw hw' hσ hσ'
            rw [ho, ok_bind]
            split
            · exact ihs _ _ _ hws hws' hσs hσs'
            · exact ⟨_, rfl⟩

theorem HasShape.exists_compare (r : Relation) (hvw : v.Agree p w) (hvw' : v'.Agree p w')
    (hv : v.HasShape σ) (hv' : v'.HasShape σ) : ∃ b, Reference.compare r v v' = .ok b := by
  obtain ⟨o, ho⟩ := exists_order v v' w w' σ hvw hvw' hv hv'
  exact ⟨_, bind_eq_ok.mpr ⟨o, ho, rfl⟩⟩

/-- A tuple has **the components of its shape**. -/
theorem HasShape.exists_component {ctx : Reference.Context} {σs : List Shape} {index : Int}
    (h : v.HasShape (.tuple σs)) (hplace : 0 ≤ componentPlace index σs.length)
    (hσ : σs[(componentPlace index σs.length).toNat]? = some σ) :
    ∃ v', v.component (Reference.arithmeticIn ctx) index = .ok v' ∧ v'.HasShape σ := by
  cases h with
  | @tuple vs _ h =>
    have hcomponent := rel_getElem? h (componentPlace index σs.length).toNat
    rw [hσ] at hcomponent
    generalize hget : vs[(componentPlace index σs.length).toNat]? = x at hcomponent
    cases hcomponent with
    | @some v' _ hv' =>
      refine ⟨v', ?_, hv'⟩
      rw [componentPlace, ← h.length_eq] at hplace hget
      simp only [component, if_neg (not_lt.mpr hplace), hget]

end Value

namespace Evaluators

variable {E : Evaluators p} {op : Op} {e x : Expr} {es : List Expr} {v : Value Quantity}
  {σ : Shape}

/-- The variables that have a value. -/
def names (E : Evaluators p) : List String := E.bindings.map Prod.fst

/-- The reference evaluation **gives a value of a shape**, the one that the emulation agrees with. -/
def Yields (E : Evaluators p) (e : Expr) (σ : Shape) : Prop :=
  ∃ v w, E.referenceRun e = .ok (v, E.referenceBindings) ∧
    E.emulationRun e = .ok (w, E.emulationBindings) ∧ v.Agree p w ∧ v.HasShape σ

/-- Where the evaluations agree, it is enough that the reference has a value. -/
theorem AgreeOn.yields (h : E.AgreeOn e)
    (hv : e.Gives (Reference.arithmeticIn E.context)
      ((Reference.arithmeticIn E.context).callsOf E.functions) E.referenceBindings v)
    (hσ : v.HasShape σ) : E.Yields e σ := by
  obtain ⟨⟨v', _⟩, ⟨w, _⟩, hv', hw, hvw, rfl, rfl⟩ | ⟨f, g, hf, -⟩ := Accords.cases h
  · obtain ⟨rfl, -⟩ := Prod.mk.inj (Except.ok.inj (hv.symm.trans hv'))
    exact ⟨v, w, hv, hw, hvw, hσ⟩
  · cases hv.symm.trans hf

/-- A bound variable is bound to a number. -/
theorem exists_lookup {name : String} (h : name ∈ E.names) :
    ∃ a, E.referenceBindings.lookup name = some (.number a) := by
  rw [names] at h
  rw [referenceBindings]
  generalize E.bindings = bindings at h
  induction bindings with
  | nil => cases h
  | cons b bindings ih =>
    rw [List.map_cons, List.lookup_cons]
    split
    · exact ⟨_, rfl⟩
    · next hne =>
      refine ih ((List.mem_cons.mp h).resolve_left ?_)
      rintro rfl
      simp at hne

/-- **An operation on one number** gives a number, if it gives one for the quantity. -/
theorem Yields.unary (hop : op.TakesNumber) (hagree : E.AgreeOn (.node op [x]))
    (hx : E.Yields x .number)
    (h : ∀ v a s, E.reference x = .ok v → Quantity.ofValue v = .ok a → SameNumber p a s →
      ∃ v', Reference.quantityOperation E.context op [a] = .ok v' ∧ v'.HasShape .number) :
    E.Yields (.node op [x]) .number := by
  obtain ⟨v, w, hv, -, hvw, hσ⟩ := hx
  obtain ⟨a, s, ha, -, has⟩ := hσ.exists_number hvw
  obtain ⟨v', hv', hshape⟩ := h v a s (reference_eq hv) ha has
  have hoperation : Reference.operation E.context op [v] = .ok v' := by
    rw [reference_operation_eq hop, ha, ok_bind, hv']
  exact hagree.yields (.unary hop.isControl hv hoperation) hshape

/-- **An exact operation** on an operand that is a number. -/
theorem Yields.onNumber {f : Rat → Rat} (hop : op.onNumber? = some f)
    (hadmits : E.Admits (.node op [x])) (hagree : E.AgreeOn (.node op [x]))
    (hx : E.Yields x .number) : E.Yields (.node op [x]) .number := by
  refine Yields.unary (.inr ⟨f, hop⟩) hagree hx fun v a s hv ha has => ?_
  obtain ⟨q, hq, haq, -⟩ := has
  have haccepts := hadmits.accepts op x v a q (Expr.self_mem_subterms _) hv ha haq
  obtain ⟨b, hb, -⟩ := Reference.operation_exact E.bits_le hq haq hop haccepts
  exact ⟨.number b, hb, .number b⟩

theorem Yields.isOdd (hadmits : E.Admits (.node .isOdd [x]))
    (hagree : E.AgreeOn (.node .isOdd [x])) (hx : E.Yields x .number) :
    E.Yields (.node .isOdd [x]) .number := by
  refine Yields.unary (.inl rfl) hagree hx fun v a s hv ha has => ?_
  obtain ⟨q, -, haq, -⟩ := has
  obtain ⟨n, rfl⟩ := hadmits.accepts .isOdd x v a q (Expr.self_mem_subterms _) hv ha haq
  exact ⟨_, Reference.isOdd_exact haq, .truth _⟩

/-- **A comparison** of two operands of one shape. -/
theorem Yields.comparison {r : Relation} {a b : Expr}
    (hagree : E.AgreeOn (.node (.comparison r) [a, b])) (ha : E.Yields a σ) (hb : E.Yields b σ) :
    E.Yields (.node (.comparison r) [a, b]) .number := by
  obtain ⟨v, w, hv, -, hvw, hσ⟩ := ha
  obtain ⟨v', w', hv', -, hvw', hσ'⟩ := hb
  obtain ⟨o, ho⟩ := hσ.exists_compare r hvw hvw' hσ'
  exact hagree.yields (.comparison hv hv' ho) (.truth o)

/-- **A choice** between two operands of one shape. -/
theorem Yields.select {c a b : Expr} {τ : Shape} (hagree : E.AgreeOn (.node .select [c, a, b]))
    (hc : E.Yields c τ) (ha : E.Yields a σ) (hb : E.Yields b σ) :
    E.Yields (.node .select [c, a, b]) σ := by
  obtain ⟨u, _, hu, -⟩ := hc
  obtain ⟨v, _, hv, -, -, hσ⟩ := ha
  obtain ⟨v', _, hv', -, -, hσ'⟩ := hb
  refine hagree.yields (.select hu hv hv') ?_
  split
  · exact hσ
  · exact hσ'

/-- Operands that yield shapes give values of them. -/
theorem exists_gives {σs : List Shape} (h : List.Forall₂ E.Yields es σs) :
    ∃ vs, List.Forall₂ (Expr.Gives (Reference.arithmeticIn E.context)
      ((Reference.arithmeticIn E.context).callsOf E.functions) E.referenceBindings) es vs ∧
        List.Forall₂ Value.HasShape vs σs := by
  induction h with
  | nil => exact ⟨[], .nil, .nil⟩
  | cons he _ ih =>
    obtain ⟨v, w, hv, -, -, hσ⟩ := he
    obtain ⟨vs, hvs, hσs⟩ := ih
    exact ⟨v :: vs, .cons hv hvs, .cons hσ hσs⟩

theorem Yields.tuple {σs : List Shape} (hagree : E.AgreeOn (.node .tuple es))
    (h : List.Forall₂ E.Yields es σs) : E.Yields (.node .tuple es) (.tuple σs) := by
  obtain ⟨vs, hvs, hσs⟩ := exists_gives h
  exact hagree.yields (.tuple hvs) (.tuple hσs)

/-- **A component** that the tuple has. -/
theorem Yields.tupleSelection {index : Int} {σs : List Shape}
    (hagree : E.AgreeOn (.node (.tupleSelection index) [x])) (hx : E.Yields x (.tuple σs))
    (hplace : 0 ≤ componentPlace index σs.length)
    (hget : σs[(componentPlace index σs.length).toNat]? = some σ) :
    E.Yields (.node (.tupleSelection index) [x]) σ := by
  obtain ⟨v, w, hv, -, -, hσs⟩ := hx
  obtain ⟨v', hv', hσ⟩ := hσs.exists_component hplace hget
  exact hagree.yields (.component hv hv') hσ

theorem yields_var {name : String} (f : Option ResultFormat) (h : name ∈ E.names) :
    E.Yields (.node (.var name f) []) .number := by
  obtain ⟨a, ha⟩ := exists_lookup h
  exact (E.agreeOn_var name f).yields (.var ha) (.number a)

theorem yields_fromBits {coding : Nat} {q : Rat} (hfinite : p.format.decode? coding = some q)
    (hagree : E.AgreeOn (.node (.fromBits (some (.binary p))) [.node (.bitPattern coding) []])) :
    E.Yields (.node (.fromBits (some (.binary p))) [.node (.bitPattern coding) []]) .number := by
  have hdecode : Reference.decode E.context coding (some (.binary p)) =
      .ok (.number (.real (.ofRat E.context.bits q))) := by
    rw [Reference.decode, hfinite]
  exact hagree.yields (.fromBits rfl rfl hdecode) (.number (.real (.ofRat E.context.bits q)))

/-- **An expression with a shape has a value** of this shape, where the evaluators admit it. -/
theorem yields_of_hasShape (he : e.IsExact p) (hadmits : E.Admits e)
    (hσ : e.HasShape E.names σ) : E.Yields e σ := by
  induction he generalizing σ with
  | var name f =>
    cases hσ with
    | var h => exact yields_var f h
  | fromBits hwidth hfinite =>
    have hagree := agreeOn_of_isExact (.fromBits hwidth hfinite) hadmits
    cases hσ with
    | fromBits => exact yields_fromBits hfinite hagree
    | operation htakes => exact htakes.elim nofun nofun
  | splat f he ih =>
    have hagree := agreeOn_of_isExact (.splat f he) hadmits
    cases hσ with
    | splat hσ =>
      obtain ⟨v, w, hv, -, -, hvσ⟩ := ih (hadmits.operand List.mem_cons_self) hσ
      exact hagree.yields (.unary rfl hv rfl) hvσ
    | operation htakes => exact htakes.elim nofun nofun
  | onNumber hop he ih =>
    have hagree := agreeOn_of_isExact (.onNumber hop he) hadmits
    cases hσ with
    | operation _ hσ =>
      exact .onNumber hop hadmits hagree (ih (hadmits.operand List.mem_cons_self) hσ)
    | _ => cases hop
  | isOdd he ih =>
    have hagree := agreeOn_of_isExact (.isOdd he) hadmits
    cases hσ with
    | operation _ hσ => exact .isOdd hadmits hagree (ih (hadmits.operand List.mem_cons_self) hσ)
  | comparison r ha hb iha ihb =>
    have hagree := agreeOn_of_isExact (.comparison r ha hb) hadmits
    cases hσ with
    | comparison hσ hσ' =>
      exact .comparison hagree (iha (hadmits.operand (by simp)) hσ)
        (ihb (hadmits.operand (by simp)) hσ')
  | select hc ha hb ihc iha ihb =>
    have hagree := agreeOn_of_isExact (.select hc ha hb) hadmits
    cases hσ with
    | select hτ hσ hσ' =>
      exact .select hagree (ihc (hadmits.operand (by simp)) hτ)
        (iha (hadmits.operand (by simp)) hσ) (ihb (hadmits.operand (by simp)) hσ')
  | @tuple es hes ih =>
    have hagree := agreeOn_of_isExact (.tuple hes) hadmits
    cases hσ with
    | @tuple _ σs hσs =>
      have hyields : ∀ x ∈ es, ∀ σ, x.HasShape E.names σ → E.Yields x σ := fun x hx σ hσ =>
        ih x hx (hadmits.operand hx) hσ
      exact .tuple hagree
        (((List.forall₂_and_left es σs).mpr ⟨hyields, hσs⟩).imp fun x σ h => h.1 σ h.2)
    | operation htakes => exact htakes.elim nofun nofun
  | tupleSelection index he ih =>
    have hagree := agreeOn_of_isExact (.tupleSelection index he) hadmits
    cases hσ with
    | tupleSelection hσ hplace hget =>
      exact .tupleSelection hagree (ih (hadmits.operand List.mem_cons_self) hσ) hplace hget
    | operation htakes => exact htakes.elim nofun nofun

/-- **The two evaluators agree on exact operations.** They give the same number, the same truth
value or the same tuple, or both fail; and they do not fail where numbers are used as numbers and
tuples as tuples, and every variable is bound. -/
theorem agree (E : Evaluators p) (he : e.IsExact p) (hadmits : E.Admits e) :
    Accords (Value.Agree p) (E.reference e) (E.emulation e) ∧
      ∀ σ, e.HasShape E.names σ →
        ∃ v w, E.reference e = .ok v ∧ E.emulation e = .ok w ∧ v.Agree p w ∧ v.HasShape σ := by
  refine ⟨(agreeOn_of_isExact he hadmits).accords, fun σ hσ => ?_⟩
  obtain ⟨v, w, hv, hw, hvw, hshape⟩ := yields_of_hasShape he hadmits hσ
  exact ⟨v, w, reference_eq hv, emulation_eq hw, hvw, hshape⟩

/-- The number `-13 / 2` of the single precision. -/
def sampleDatum : Datum := .ofCoding Precision.single.format 0xC0D00000

theorem isMember_sampleDatum : sampleDatum.IsMember Precision.single.format :=
  Datum.isMember_ofCoding _ _

theorem denotes_sampleDatum : sampleDatum.Denotes (-13 / 2) :=
  @Datum.denotes_ofCoding _ 0xC0D00000 _ (by decide +kernel)

/-- The evaluators of the single precision with `x` bound to `-13 / 2`, the reference at the bits of
the mantissa. -/
def sample : Evaluators .single where
  context := ⟨24, 7⟩
  functions := []
  bindings := [("x", sampleDatum)]
  bits_le := by decide
  finite := List.forall_mem_singleton.mpr ⟨isMember_sampleDatum, _, denotes_sampleDatum⟩

/-- The variable of `sample`. -/
def sampleVariable : Expr := .node (.var "x" none) []

theorem isExact_sampleVariable : sampleVariable.IsExact .single := .var "x" none

theorem hasShape_sampleVariable : sampleVariable.HasShape sample.names .number :=
  .var (List.mem_singleton.mpr rfl)

/-- The value of the variable of `sample` in the reference arithmetic. -/
def sampleQuantity : Quantity := .real (.ofRat 24 (sampleDatum.toRat?.getD 0))

theorem denotes_sampleQuantity : sampleQuantity.Denotes (-13 / 2) := by
  have hhas : Precision.single.Has (-13 / 2) := ⟨_, denotes_sampleDatum, isMember_sampleDatum⟩
  rw [sampleQuantity, denotes_sampleDatum.toRat?_eq]
  exact @Quantity.denotes_ofRat sample.context _ hhas.fits

theorem sample_reference_variable :
    sample.reference sampleVariable = .ok (.number sampleQuantity) := rfl

/-- The mantissa of a number that is at most its opposite, and the exponent of any other. -/
def sampleChoice : Expr :=
  .node .select [.node (.comparison .lessOrEqual)
      [sampleVariable, .node .negation [sampleVariable]],
    .node .mantissaExtraction [sampleVariable], .node .exponentExtraction [sampleVariable]]

theorem agree_sampleChoice :
    sampleChoice.IsExact .single ∧ sample.Admits sampleChoice ∧
      sampleChoice.HasShape sample.names .number ∧
        ∃ v w, sample.reference sampleChoice = .ok v ∧ sample.emulation sampleChoice = .ok w ∧
          v.Agree .single w ∧ v.HasShape .number := by
  have hx := isExact_sampleVariable
  have hσ := hasShape_sampleVariable
  have hexact : sampleChoice.IsExact .single :=
    .select (.comparison _ hx (.onNumber rfl hx)) (.onNumber rfl hx) (.onNumber rfl hx)
  have hunary : ∀ op x, .node op [x] ∈ sampleChoice.subterms → x = sampleVariable ∧
      (op = .negation ∨ op = .mantissaExtraction ∨ op = .exponentExtraction) := by
    intro op x hmem
    simp [sampleChoice, sampleVariable, Expr.subterms, Expr.subtermsAll] at hmem ⊢
    tauto
  have hadmits : sample.Admits sampleChoice := by
    constructor
    · intro op x v a q hmem hv ha hq
      obtain ⟨rfl, hop⟩ := hunary op x hmem
      obtain rfl := Except.ok.inj (sample_reference_variable.symm.trans hv)
      obtain rfl := Except.ok.inj ha
      obtain rfl := hq.unique denotes_sampleQuantity
      have hne : (-13 / 2 : Rat) ≠ 0 := by decide +kernel
      obtain rfl | rfl | rfl := hop
      · trivial
      · exact hne
      · exact hne
    · intro x b hmem h
      obtain ⟨rfl, -⟩ := hunary _ x hmem
      cases h
  have hshape : sampleChoice.HasShape sample.names .number :=
    .select (.comparison hσ (.operation (.inr ⟨_, rfl⟩) hσ)) (.operation (.inr ⟨_, rfl⟩) hσ)
      (.operation (.inr ⟨_, rfl⟩) hσ)
  exact ⟨hexact, hadmits, hshape, (agree sample hexact hadmits).2 _ hshape⟩

/-- The opposite of the magnitude of a truth value. -/
def sampleOpposite : Expr :=
  .node .negation [.node .absolute
    [.node (.comparison .lessOrEqual) [sampleVariable, sampleVariable]]]

/-- The opposite of a tuple. -/
def sampleTuple : Expr := .node .negation [.node .tuple [sampleVariable]]

/-- The reference has a value for **the opposite of the magnitude of a truth value**, and the
emulation has none; neither has one for the opposite of a tuple. -/
theorem not_agree_sampleOpposite :
    (sampleOpposite.IsExact .single ∧ sample.Accepts sampleOpposite ∧
      sampleOpposite.HasShape sample.names .number ∧
        sample.reference sampleOpposite = .ok (.number (.integer (-1))) ∧
          ∃ f, sample.emulation sampleOpposite = .error f) ∧
      sampleTuple.IsExact .single ∧ sample.Accepts sampleTuple ∧
        (∃ f, sample.reference sampleTuple = .error f) ∧
          ∃ f, sample.emulation sampleTuple = .error f := by
  have hx := isExact_sampleVariable
  have hσ := hasShape_sampleVariable
  have hopposite : sample.reference sampleOpposite = .ok (.number (.integer (-1))) := by
    have horder := Reference.order_exact (v := .number sampleQuantity) (w := .number sampleQuantity)
      rfl rfl denotes_sampleQuantity denotes_sampleQuantity
    have hcompare : Reference.compare .lessOrEqual (.number sampleQuantity)
        (.number sampleQuantity) = .ok true := by
      rw [Reference.compare, Value.order, horder, if_neg (lt_irrefl _), if_pos rfl]
      · rfl
      · rintro _ _ h
        cases h
    have hvariable : sampleVariable.Gives (Reference.arithmeticIn sample.context)
        ((Reference.arithmeticIn sample.context).callsOf sample.functions)
        sample.referenceBindings (.number sampleQuantity) := .var rfl
    -- the magnitude of the truth value is the number one
    have habsolute := Expr.Gives.unary (show Op.absolute.isControl = false from rfl)
      (hvariable.comparison hvariable hcompare) (show _ = Except.ok (.number (.integer 1)) from rfl)
    exact reference_eq (habsolute.unary (show Op.negation.isControl = false from rfl) rfl)
  refine ⟨⟨.onNumber rfl (.onNumber rfl (.comparison _ hx hx)), ?_,
    .operation (.inr ⟨_, rfl⟩) (.operation (.inr ⟨_, rfl⟩) (.comparison hσ hσ)), hopposite,
    _, rfl⟩, .onNumber rfl (.tuple (List.forall_mem_singleton.mpr hx)), ?_, ⟨_, rfl⟩, _, rfl⟩
  · intro op x v a q hmem _ _ _
    simp [sampleOpposite, sampleVariable, Expr.subterms, Expr.subtermsAll] at hmem
    obtain ⟨rfl, -⟩ | ⟨rfl, -⟩ := hmem
    · trivial
    · trivial
  · intro op x v a q hmem _ _ _
    simp [sampleTuple, sampleVariable, Expr.subterms, Expr.subtermsAll] at hmem
    obtain ⟨rfl, -⟩ | ⟨rfl, -⟩ := hmem
    · trivial
    · trivial

end Evaluators

end Elementary
