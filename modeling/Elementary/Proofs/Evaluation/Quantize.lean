import Elementary.Evaluation.Emulation
import Elementary.Proofs.Evaluation.Basic
import Elementary.Proofs.Expr.Quantize
import Elementary.Proofs.Format.Coding

/-!
# Quantization keeps the meaning

The emulation of a precision rounds a constant through its coding when it meets it, and decodes the
coding where it stands in a quantized expression. Both ways lead to one number. A named constant is
kept with more digits by the quantization than the emulation computes, and still rounds to the same
number. So an expression and its quantized form have the same outcome, whatever functions they call,
and whether or not these are quantized.

## Main results

* `Emulation.constantCoding?_eq`: named constants round alike at both precisions.
* `Emulation.evaluate_literal`, `Emulation.evaluate_constant`: a coding and a constant.
* `Expr.coded_interchangeable`: a coded expression stands for the expression.
* `Emulation.evaluateWith_quantize`: quantization keeps the outcome.
-/

namespace Elementary

namespace Emulation

/-- The coding to which a named constant rounds that is computed with some bits. -/
def constantCoding? (bits : Nat) (p : Precision) (name : String) : Option Nat :=
  (BigFloat.constant? bits name).bind fun x => x.toRat?.bind p.format.encode?

/-- **Named constants round alike**, whether forty digits of them are computed or as many bits as
are kept. -/
theorem constantCoding?_eq : ∀ p ∈ Precision.all, ∀ name ∈ BigFloat.constantNames,
    constantCoding? (workingBits 40) p name = constantCoding? BigFloat.constantBits p name := by
  decide +kernel

variable {p : Precision} {nt : NumberType} {calls : Calls Scalar} {env : Bindings Scalar}
  {op : Op} {v : Number} {c : Nat}

/-- **The value of a coding** that fits the width of the format. -/
theorem evaluate_literal (hc : c < 2 ^ nt.precision.format.bitSize) :
    Expr.evaluate (arithmetic p) calls (nt.literal c) env =
      .ok (.number (.binary nt.precision (Datum.ofCoding nt.precision.format c)), env) := by
  have hdecode : decode c nt.formatAttribute =
      .ok (.number (.binary nt.precision (Datum.ofCoding nt.precision.format c))) := by
    have hrange : ¬ ((c : Int) < 0 ∨ (Nat.pow 2 nt.precision.format.bitSize : Int) ≤ c) := by
      have hpow : (c : Int) < ((2 ^ nt.precision.format.bitSize : Nat) : Int) := by
        exact_mod_cast hc
      push_cast at hpow
      rintro (h | h)
      · omega
      · exact absurd h (not_le.mpr hpow)
    rw [NumberType.formatAttribute, decode, if_neg hrange]
    rfl
  have hscalar : Expr.evaluate (arithmetic p) calls
      (.node (.fromBits nt.formatAttribute) [.node (.bitPattern c) []]) env =
        .ok (.number (.binary nt.precision (Datum.ofCoding nt.precision.format c)), env) := by
    show (do let x ← decode c nt.formatAttribute; .ok (x, env)) = _
    rw [hdecode]
    rfl
  rw [NumberType.literal]
  split
  · rw [Expr.evaluate_numeric rfl, Expr.evaluateAll, hscalar]
    rfl
  · exact hscalar

/-- A number of arbitrary precision has the exact value that it stores. -/
theorem toRat_big_eq_ok {x : BigFloat} {digits : Nat} {q : Rat}
    (h : (Number.big x digits).toRat = .ok q) : x.toRat? = some q := by
  cases x with
  | nan | infinite negative => cases h
  | finite x => exact congrArg some (Except.ok.inj h)

/-- A named constant is kept as a number of arbitrary precision. -/
theorem exists_of_ofConstant_eq_ok {name : String} (h : Number.ofConstant name = .ok v) :
    ∃ x, BigFloat.constant? BigFloat.constantBits name = some x ∧
      v = .big x (shownDigits BigFloat.constantBits) := by
  rw [Number.ofConstant, BigFloat.constant] at h
  cases hx : BigFloat.constant? BigFloat.constantBits name with
  | none =>
    rw [hx] at h
    cases h
  | some x =>
    rw [hx] at h
    exact ⟨x, rfl, (Except.ok.inj h).symm⟩

/-- A named constant with a coding has it already when forty digits are computed. -/
theorem exists_constant_of_coding? {name : String} (hname : Number.ofConstant name = .ok v)
    (hc : nt.coding? v = some c) :
    ∃ x, BigFloat.constant (workingBits 40) name = .ok x ∧
      nt.precision.format.encode? (x.toRat?.getD 0) = some c := by
  obtain ⟨x, hx, rfl⟩ := exists_of_ofConstant_eq_ok hname
  obtain ⟨q, hq, hcoding⟩ := NumberType.coding?_eq_some_iff.mp hc
  have hkept : constantCoding? BigFloat.constantBits nt.precision name = some c := by
    rw [constantCoding?, hx, Option.bind_some, toRat_big_eq_ok hq, Option.bind_some, hcoding]
  have hall : nt.precision ∈ Precision.all := by cases nt.precision <;> decide
  rw [← constantCoding?_eq nt.precision hall name (BigFloat.mem_constantNames hx)] at hkept
  obtain ⟨y, hy, hyc⟩ := Option.bind_eq_some_iff.mp hkept
  obtain ⟨q', hq', hqc⟩ := Option.bind_eq_some_iff.mp hyc
  refine ⟨y, ?_, ?_⟩
  · rw [BigFloat.constant, hy]
  · rw [hq', Option.getD_some, hqc]

/-- **The value of a constant** is the number of its coding. -/
theorem evaluate_constant (hop : op.number? = some (.ok v)) (hc : nt.coding? v = some c) :
    Expr.evaluate (arithmetic nt.precision) calls (.node op []) env =
      .ok (.number (.binary nt.precision (Datum.ofCoding nt.precision.format c)), env) := by
  cases op with
  | constant n =>
    obtain rfl : n = v := by simpa [Op.number?] using hop
    obtain ⟨q, hq, hcoding⟩ := NumberType.coding?_eq_some_iff.mp hc
    have hvalue : (arithmetic nt.precision).operation (.constant n) [] =
        .ok (.number (.binary nt.precision (Datum.ofCoding nt.precision.format c))) := by
      show (do return Value.number (← roundExact nt.precision (← n.toRat))) = _
      rw [hq]
      show (do return Value.number (← roundExact nt.precision q)) = _
      rw [roundExact, Precision.encode_eq_ok hcoding]
      rfl
    rw [Expr.evaluate_numeric rfl]
    show (do let x ← (arithmetic nt.precision).operation (.constant n) []; .ok (x, env)) = _
    rw [hvalue]
    rfl
  | mathConstant name =>
    obtain ⟨x, hx, hcoding⟩ := exists_constant_of_coding? (by simpa [Op.number?] using hop) hc
    have hvalue : (arithmetic nt.precision).operation (.mathConstant name) [] =
        .ok (.number (.binary nt.precision (Datum.ofCoding nt.precision.format c))) := by
      show (do let x ← BigFloat.constant (workingBits 40) name
               return Value.number (← roundExact nt.precision (x.toRat?.getD 0))) = _
      rw [hx]
      show (do return Value.number (← roundExact nt.precision (x.toRat?.getD 0))) = _
      rw [roundExact, Precision.encode_eq_ok hcoding]
      rfl
    rw [Expr.evaluate_numeric rfl]
    show (do let x ← (arithmetic nt.precision).operation (.mathConstant name) []; .ok (x, env)) = _
    rw [hvalue]
    rfl
  | _ => cases hop

end Emulation

namespace Expr

variable {nt : NumberType} {calls' calls : Calls Scalar} {e a : Expr}

/-- **Bit conversions are direct** when the operand of each is a bit pattern. -/
def HasDirectBits (e : Expr) : Prop :=
  ∀ f operand, node (.fromBits f) [operand] ∈ e.subterms → ∃ c, operand.op = .bitPattern c

theorem HasDirectBits.of_mem_subterms (h : e.HasDirectBits) (ha : a ∈ e.subterms) :
    a.HasDirectBits :=
  fun f operand hmem => h f operand (subterms_trans hmem ha)

/-- An expression that stays as it is **stands for itself**, whichever of the calls are made. -/
theorem refl_interchangeable {ν : Type} {A : Arithmetic ν} {calls' calls : Calls ν}
    (hcalls : SameCalls calls' calls) (e : Expr) : Interchangeable A calls' calls e e := by
  induction e with
  | node op es ih =>
    refine ⟨Or.inl rfl, evaluate_congr hcalls (List.forall₂_same.mpr ih) fun f hf => ?_⟩
    exact List.forall₂_same.mpr fun e he => rfl

/-- The expression of a coding and a constant are both a value, neither a result nor a variable. -/
theorem sameRole_literal {op : Op} {c : Nat} (hop : op.number? ≠ none) (es : List Expr) :
    SameRole (nt.literal c) (node op es) := by
  have hconstant : op ≠ .result ∧ ∀ name f, op ≠ .var name f := by
    constructor
    · rintro rfl
      exact hop rfl
    · rintro name f rfl
      exact hop rfl
  rw [NumberType.literal]
  split <;> exact Or.inr ⟨by simp [Expr.op], hconstant.1, by simp [Expr.op], hconstant.2⟩

/-- **A coded expression stands for the expression**, under calls with the same outcomes. -/
theorem coded_interchangeable (hcalls : SameCalls calls' calls) (hwf : e.WellFormed)
    (hbits : e.HasDirectBits) (hcodable : e.Codable nt) :
    Interchangeable (Emulation.arithmetic nt.precision) calls' calls (e.coded nt) e := by
  induction e with
  | node op es ih =>
    obtain ⟨harity, hes⟩ := wellFormed_node.mp hwf
    obtain ⟨hroot, hcodables⟩ := codable_node.mp hcodable
    cases hop : op.number? with
    | none =>
      rw [coded_of_number?_eq_none hop]
      refine ⟨Or.inl rfl, evaluate_congr hcalls ?_ fun f hf => ?_⟩
      · refine List.forall₂_map_left_iff.mpr (List.forall₂_same.mpr fun e he => ?_)
        exact ih e he (hes e he)
          (hbits.of_mem_subterms (mem_subterms_of_mem he (self_mem_subterms e))) (hcodables e he)
      · subst hf
        obtain ⟨operand, rfl⟩ := List.length_eq_one_iff.mp (Op.checkArity_eq_ok_iff.mp harity 1 rfl)
        obtain ⟨c, hc⟩ := hbits f operand (self_mem_subterms _)
        refine .cons ?_ .nil
        cases operand with
        | node op es =>
          obtain rfl : op = .bitPattern c := hc
          rw [coded_of_number?_eq_none rfl]
          rfl
    | some n =>
      obtain ⟨v, c, rfl, hcode⟩ := hroot n hop
      have hc := NumberType.coding?_of_codingOutcome hcode
      rw [coded_of_number?_eq_some hop hc]
      have hempty := Op.checkArity_eq_ok_iff.mp harity 0 (Op.arity_of_number? hop)
      obtain rfl := List.length_eq_zero_iff.mp hempty
      refine ⟨sameRole_literal (by simp [hop]) [], fun env => .of_eq ?_⟩
      have hlt : c < 2 ^ nt.precision.format.bitSize := by
        obtain ⟨q, -, hq⟩ := NumberType.coding?_eq_some_iff.mp hc
        exact Format.encode?_lt hq
      rw [Emulation.evaluate_literal hlt, Emulation.evaluate_constant hop hc]

end Expr

namespace GeneratedFunction

variable {nt : NumberType} {f g : GeneratedFunction}

/-- How the quantization of a function ends, after any messages. -/
theorem quantizeFor_ends (f : GeneratedFunction) (nt : NumberType) (events : Array Event) :
    Computation.Ends (f.quantizeFor nt) events
      (fun g _ => f.body.Codable nt ∧
        g = { f with statements := f.statements.map (Expr.coded nt) })
      fun _ _ => ¬ f.body.Codable nt := by
  have hbody : f.body.coded nt = .node .statement (f.statements.map (Expr.coded nt)) :=
    Expr.coded_of_number?_eq_none rfl
  have hquantize := fun events => (Expr.quantize_ends nt f.body events).mono
    (fun e s h => h) fun _ _ ⟨_, hfails, _⟩ => hfails.not_codable
  refine .modify ((hquantize _).bind fun body s ⟨hcoded, hcodable⟩ => ?_)
  rw [hcoded, hbody]
  exact .pure ⟨hcodable, rfl⟩

/-- **A quantized function** has the coded statements, and is the same function otherwise. -/
theorem quantizeFor_eq_ok_iff :
    (f.quantizeFor nt).outcome = .ok g ↔
      f.body.Codable nt ∧ g = { f with statements := f.statements.map (Expr.coded nt) } := by
  have hends := quantizeFor_ends f nt #[]
  rw [Traced.outcome_eq]
  rcases hrun : Computation.runFrom (f.quantizeFor nt) #[] with ⟨_ | g', s⟩
  · exact iff_of_false (fun h => by cases h) fun h => hends.error hrun h.1
  · obtain ⟨hcodable, rfl⟩ := hends.ok hrun
    refine ⟨fun h => ⟨hcodable, (Except.ok.inj h).symm⟩, fun h => ?_⟩
    rw [h.2]

/-- A function that stays as it is stands for itself. -/
theorem refl_interchangeable {ν : Type} (A : Arithmetic ν) (f : GeneratedFunction) :
    f.Interchangeable A f :=
  ⟨rfl, rfl, fun _ _ hcalls =>
    List.forall₂_same.mpr fun e _ => Expr.refl_interchangeable hcalls e⟩

/-- A quantized function stands for the function. -/
theorem quantize_interchangeable (hwf : f.body.WellFormed) (hbits : f.body.HasDirectBits)
    (h : (f.quantizeFor nt).outcome = .ok g) :
    g.Interchangeable (Emulation.arithmetic nt.precision) f := by
  obtain ⟨hcodable, rfl⟩ := quantizeFor_eq_ok_iff.mp h
  refine ⟨rfl, rfl, fun calls' calls hcalls => ?_⟩
  refine List.forall₂_map_left_iff.mpr (List.forall₂_same.mpr fun e he => ?_)
  exact Expr.coded_interchangeable hcalls ((Expr.wellFormed_node.mp hwf).2 e he)
    (hbits.of_mem_subterms (Expr.mem_subterms_of_mem he (Expr.self_mem_subterms e)))
    ((Expr.codable_node.mp hcodable).2 e he)

/-- Functions that are left as they are or quantized, each on its own, stand for the functions. -/
theorem forall₂_interchangeable {fs gs : List GeneratedFunction}
    (hgs : List.Forall₂ (fun g f => g = f ∨ (f.quantizeFor nt).outcome = .ok g) gs fs)
    (hfs : ∀ f ∈ fs, f.body.WellFormed ∧ f.body.HasDirectBits) :
    List.Forall₂ (Interchangeable (Emulation.arithmetic nt.precision)) gs fs := by
  induction hgs with
  | nil => exact .nil
  | @cons g f gs fs hg _ ih =>
    refine .cons ?_ (ih fun f' hf' => hfs f' (List.mem_cons_of_mem f hf'))
    obtain ⟨hwf, hbits⟩ := hfs f List.mem_cons_self
    rcases hg with rfl | hg
    · exact refl_interchangeable _ g
    · exact quantize_interchangeable hwf hbits hg

end GeneratedFunction

/-- **Quantization keeps the meaning.** Take an expression whose bit conversions are direct, and
functions of that kind which are left as they are or quantized, each on its own. Under the emulation
of the precision the quantized expression, a tree or a graph, has the same outcome as the expression
for all bindings: one value, or failures of one kind. -/
theorem Emulation.evaluateWith_quantize (nt : NumberType) (fs gs : List GeneratedFunction)
    (hfs : ∀ f ∈ fs, f.body.WellFormed ∧ f.body.HasDirectBits)
    (hgs : List.Forall₂ (fun g f => g = f ∨ (f.quantizeFor nt).outcome = .ok g) gs fs)
    (e : Expr) (hwf : e.WellFormed) (hbits : e.HasDirectBits) (env : Bindings Scalar) :
    (∀ e', (e.quantize nt).outcome = .ok e' →
      SameOutcome ((Emulation.arithmetic nt.precision).evaluateWith gs e' env)
        ((Emulation.arithmetic nt.precision).evaluateWith fs e env)) ∧
    ∀ (n : Node) (next : Nat) (r : Replacement), n.erase = e → n.Coherent next →
      (n.quantize nt next).1 = .ok r →
        ∃ m, r = .node m ∧
          SameOutcome ((Emulation.arithmetic nt.precision).evaluateWith gs m.erase env)
            ((Emulation.arithmetic nt.precision).evaluateWith fs e env) := by
  have hcalls := Arithmetic.callsOf_congr (GeneratedFunction.forall₂_interchangeable hgs hfs)
  have hcoded : e.Codable nt →
      SameOutcome ((Emulation.arithmetic nt.precision).evaluateWith gs (e.coded nt) env)
        ((Emulation.arithmetic nt.precision).evaluateWith fs e env) := fun hcodable =>
    ((Expr.coded_interchangeable hcalls hwf hbits hcodable).2 env).map Prod.fst
  constructor
  · intro e' he'
    obtain ⟨hcodable, rfl⟩ := Expr.quantize_outcome_eq_ok_iff.mp he'
    exact hcoded hcodable
  · rintro n next r rfl hn hr
    obtain ⟨m, rfl, hm, hcodable⟩ := Node.exists_of_quantize_eq_ok hn hwf hr
    exact ⟨m, rfl, hm ▸ hcoded hcodable⟩

namespace Emulation

/-- A function that doubles its argument. -/
def twice : GeneratedFunction where
  name := "twice"
  numberType := ⟨.single, false⟩
  arguments := ["x"]
  statements :=
    [.node .result [.node .multiplication
      [.node (.var "x" none) [], .node (.constant (.integer 2)) []]]]
  outputs := 1
  fits := []

/-- `twice(0.1) + 3`, the `3` given by its coding in single precision. -/
def twiceAndThree : Expr :=
  .node .addition
    [.node (.functionCall "twice") [.node (.constant (.literal "0.1")) []],
      .node (.fromBits (some (.binary .single))) [.node (.bitPattern 0x40400000) []]]

/-- The function and the expression that calls it, both quantized for vectors. -/
theorem evaluateWith_twiceAndThree :
    SameOutcome
      ((arithmetic .single).evaluateWith
        [{ twice with statements := twice.statements.map (Expr.coded ⟨.single, true⟩) }]
        (twiceAndThree.coded ⟨.single, true⟩) [])
      ((arithmetic .single).evaluateWith [twice] twiceAndThree []) := by
  have hone : NumberType.codingOutcome ⟨.single, true⟩ (.literal "0.1") = .ok 0x3dcccccd := by
    decide +kernel
  have htwo : NumberType.codingOutcome ⟨.single, true⟩ (.integer 2) = .ok 0x40000000 := by
    decide +kernel
  have hbody : twice.body.Codable ⟨.single, true⟩ := by
    simp [twice, GeneratedFunction.body, Expr.codable_node, Op.number?, htwo]
  have hexpr : twiceAndThree.Codable ⟨.single, true⟩ := by
    simp [twiceAndThree, Expr.codable_node, Op.number?, hone]
  refine (evaluateWith_quantize ⟨.single, true⟩ [twice] _ ?_
    (.cons (Or.inr (GeneratedFunction.quantizeFor_eq_ok_iff.mpr ⟨hbody, rfl⟩)) .nil)
    twiceAndThree rfl ?_ []).1 _ (Expr.quantize_outcome_eq_ok_iff.mpr ⟨hexpr, rfl⟩)
  · intro f hf
    obtain rfl := List.mem_singleton.mp hf
    refine ⟨rfl, fun f operand h => ?_⟩
    simp [twice, GeneratedFunction.body, Expr.mem_subterms_node] at h
  · intro f operand h
    simp [twiceAndThree, Expr.mem_subterms_node] at h
    exact ⟨_, by rw [h.2]; rfl⟩

end Emulation

end Elementary
