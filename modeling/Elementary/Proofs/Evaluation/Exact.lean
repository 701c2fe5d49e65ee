import Elementary.Proofs.Evaluation.Denotation

/-!
# Values that agree

A value of the reference arithmetic and one of the emulation agree when they are the same number of
the precision, whatever stands for it, the same truth value, or tuples with components that agree.
What is done with values that agree gives values that agree, or fails in both arithmetics.

## Main definitions

* `Accords`: outcomes that are both values, which are related, or both failures.
* `SameNumber`: a quantity and a scalar that stand for one number of a precision.
* `Value.Agree`: one value in the two arithmetics.

## Main results

* `Value.Agree.operand`: operands that agree.
* `Value.Agree.component_accords`, `Value.Agree.compare_accords`: components and comparisons.
* `Value.Agree.isTrue_eq`: values that agree count as true together.
-/

namespace Elementary

/-! ### Outcomes that accord -/

/-- Two outcomes **accord** when both are values, for which the relation holds, or both are
failures. -/
def Accords {α β : Type} (R : α → β → Prop) : Except Failure α → Except Failure β → Prop
  | .ok a, .ok b => R a b
  | .error _, .error _ => True
  | _, _ => False

namespace Accords

variable {α β γ δ : Type} {R : α → β → Prop} {S : γ → δ → Prop} {x : Except Failure α}
  {y : Except Failure β} {f : α → Except Failure γ} {g : β → Except Failure δ} {a : α} {b : β}

theorem ok (h : R a b) : Accords R (.ok a) (.ok b) := h

theorem error (f g : Failure) : Accords R (.error f) (.error g) := trivial

/-- **Going on** from outcomes that accord. -/
theorem bind (h : Accords R x y) (hfg : ∀ a b, R a b → Accords S (f a) (g b)) :
    Accords S (x >>= f) (y >>= g) := by
  cases x <;> cases y
  · trivial
  · exact h.elim
  · exact h.elim
  · exact hfg _ _ h

/-- Outcomes that accord: two values, or two failures. -/
theorem cases (h : Accords R x y) :
    (∃ a b, x = .ok a ∧ y = .ok b ∧ R a b) ∨ ∃ f g, x = .error f ∧ y = .error g := by
  cases x <;> cases y
  · exact .inr ⟨_, _, rfl, rfl⟩
  · exact h.elim
  · exact h.elim
  · exact .inl ⟨_, _, rfl, rfl, h⟩

end Accords

/-- Related lists have related elements at every place. -/
theorem rel_getElem? {α β : Type} {R : α → β → Prop} {as : List α} {bs : List β}
    (h : List.Forall₂ R as bs) : ∀ i : Nat, Option.Rel R as[i]? bs[i]? := by
  induction h with
  | nil => exact fun i => .none
  | cons hab _ ih =>
    intro i
    cases i with
    | zero => exact .some hab
    | succ i => exact ih i

/-! ### Values -/

variable {p : Precision} {ctx : Reference.Context} {a : Quantity} {s : Scalar} {q : Rat}
  {v v' : Value Quantity} {w w' : Value Scalar} {vs : List (Value Quantity)}
  {ws : List (Value Scalar)} {op : Op}

/-- A quantity and a scalar are **the same number** of a precision. The zeros are the same. -/
def SameNumber (p : Precision) (a : Quantity) (s : Scalar) : Prop :=
  ∃ q, p.Has q ∧ a.Denotes q ∧ s.Denotes p q

namespace Value

/-- A value of the reference arithmetic and one of the emulation **agree**: they are the same
number, the same truth value, or tuples that agree component by component. -/
inductive Agree (p : Precision) : Value Quantity → Value Scalar → Prop
  | number {a : Quantity} {s : Scalar} (h : SameNumber p a s) : Agree p (.number a) (.number s)
  | truth (b : Bool) : Agree p (.truth b) (.truth b)
  | tuple {vs : List (Value Quantity)} {ws : List (Value Scalar)}
    (h : List.Forall₂ (Agree p) vs ws) : Agree p (.tuple vs) (.tuple ws)

theorem sameNumber_toInt (b : Bool) :
    SameNumber p (.integer (if b then 1 else 0)) (.truth b) := by
  have hsmall : b.toInt.natAbs ≤ 2 ^ p.format.fieldSize := by
    cases b
    · exact Nat.zero_le _
    · exact Nat.one_le_two_pow
  refine ⟨b.toInt, Precision.has_intCast hsmall, ?_, .truth b⟩
  cases b <;> exact .integer _

/-- **Operands** that agree are the same number, or neither is a number. -/
theorem Agree.operand (h : v.Agree p w) :
    Accords (SameNumber p) (Quantity.ofValue v) (Scalar.ofValue w) := by
  cases h with
  | number h => exact .ok h
  | truth b => exact .ok (sameNumber_toInt b)
  | tuple h => exact .error _ _

/-- Values that agree **count as true** together. -/
theorem Agree.isTrue_eq (h : v.Agree p w) :
    v.isTrue (Reference.arithmeticIn ctx) = w.isTrue (Emulation.arithmetic p) := by
  cases h with
  | number h =>
    obtain ⟨q, -, ha, hs⟩ := h
    exact (Reference.isTrue_exact ha).trans (Emulation.isTrue_exact hs).symm
  | truth b => rfl
  | tuple h => cases h <;> rfl

/-- Values that agree have **components** that agree, or neither has the component. -/
theorem Agree.component_accords (h : v.Agree p w) (index : Int) :
    Accords (Agree p) (v.component (Reference.arithmeticIn ctx) index)
      (w.component (Emulation.arithmetic p) index) := by
  cases h with
  | number h => exact .error _ _
  | truth b => exact .error _ _
  | @tuple vs ws h =>
    simp only [Value.component, h.length_eq]
    generalize (if index < 0 then index + (ws.length : Int) else index) = i
    split
    · exact .error _ _
    · have hcomponents := rel_getElem? h i.toNat
      generalize vs[i.toNat]? = x, ws[i.toNat]? = y at hcomponents
      cases hcomponents with
      | none => exact .error _ _
      | some h => exact .ok h

/-- The **order** of two operands that agree. -/
theorem operands_order_accords (h : v.Agree p w) (h' : v'.Agree p w') :
    Accords Eq (Reference.order v v') (Emulation.order w w') := by
  obtain ⟨a, s, ha, hs, q, hq, haq, hsq⟩ | ⟨f, g, hf, hg⟩ := h.operand.cases
  · obtain ⟨b, t, hb, ht, q', hq', hbq, htq⟩ | ⟨f, g, hf, hg⟩ := h'.operand.cases
    · rw [Reference.order_exact ha hb haq hbq, Emulation.order_exact hs ht hq hq' hsq htq]
      exact .ok rfl
    · rw [Reference.order, Emulation.order, ha, hs, hf, hg]
      exact .error f g
  · rw [Reference.order, Emulation.order, hf, hg]
    exact .error f g

/-- **The order of two values** that agree. -/
theorem Agree.order_accords : ∀ (v v' : Value Quantity) (w w' : Value Scalar), v.Agree p w →
    v'.Agree p w' → Accords Eq (order Reference.order v v') (order Emulation.order w w') := by
  refine order.induct
    (fun v v' => ∀ w w', v.Agree p w → v'.Agree p w' →
      Accords Eq (order Reference.order v v') (order Emulation.order w w'))
    (fun vs vs' => ∀ ws ws', List.Forall₂ (Agree p) vs ws → List.Forall₂ (Agree p) vs' ws' →
      Accords Eq (orderAll Reference.order vs vs') (orderAll Emulation.order ws ws'))
    ?tuples ?others ?nil ?shorter ?longer ?nothing ?cons
  case tuples =>
    intro vs vs' ih w w' h h'
    cases h with
    | tuple h =>
      cases h' with
      | tuple h' =>
        rw [order, order]
        exact ih _ _ h h'
  case others =>
    intro v v' hvv' w w' h h'
    rw [order.eq_2 _ v v' hvv', order.eq_2 _ w w']
    · exact operands_order_accords h h'
    · rintro ws ws' rfl rfl
      cases h with
      | tuple =>
        cases h' with
        | tuple => exact hvv' _ _ rfl rfl
  case nil =>
    intro ws ws' h h'
    cases h
    cases h'
    exact .ok rfl
  case shorter =>
    intro v' vs' ws ws' h h'
    cases h
    cases h'
    exact .ok rfl
  case longer =>
    intro v vs ws ws' h h'
    cases h
    cases h'
    exact .ok rfl
  case nothing =>
    intro vs vs' ih ws ws' h h'
    cases h with
    | cons h _ => cases h
  case cons =>
    intro v vs v' vs' hvv' ih ihs ws ws' h h'
    cases h with
    | @cons _ w _ ws h hs =>
      cases h' with
      | @cons _ w' _ ws' h' hs' =>
        have hww' : w = nothing → w' = nothing → False := by
          rintro rfl
          cases h
        rw [orderAll.eq_5 _ v vs v' vs' hvv', orderAll.eq_5 _ w ws w' ws' hww']
        refine (ih w w' h h').bind ?_
        rintro o _ rfl
        split
        · exact ihs ws ws' hs hs'
        · exact .ok rfl

/-- **Comparisons** of values that agree. -/
theorem Agree.compare_accords (r : Relation) (h : v.Agree p w) (h' : v'.Agree p w') :
    Accords Eq (Reference.compare r v v') (Emulation.compare r w w') := by
  refine (Agree.order_accords v v' w w' h h').bind ?_
  rintro o _ rfl
  exact .ok rfl

end Value

end Elementary
