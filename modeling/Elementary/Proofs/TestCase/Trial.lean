import Elementary.Proofs.Source.Closed

/-!
# Trials

A test keeps what it computes in variables of a program, next to the variable of its expressions. A
trial is the same computation without any names: every value is handed to where it is needed. So a
program that runs like the trial confuses none of its variables.

## Main definitions

* `Trial`, `Trial.run`: what a test computes.
* `Mirrors`: a run that ends like another one.
* `Expr.Mentions`: the names that an expression is written with.
* `TestCase.ReadsSample`: the tests of quantized expressions over the variable for the sample.

## Main results

* `Mirrors.foldlM`: loops of which every round ends alike.
-/

namespace Elementary

/-- **What a test computes** on objects: the largest of the errors of its candidate against its
reference, both of them evaluated at every sample. -/
structure Trial (Obj Result : Type) where
  /-- The samples, each of which is brought to the tested format when its turn comes. -/
  samples : Except Failure (List (Except Failure Obj))
  /-- The largest error before the first sample. -/
  start : Except Failure Obj
  reference (sample : Obj) : Except Failure Obj
  candidate (sample : Obj) : Except Failure Obj
  error (reference candidate : Obj) : Except Failure Obj
  /-- The larger one of the largest error and another error. -/
  update (largest error : Obj) : Except Failure Obj
  conclude (largest : Obj) : Except Failure Result

namespace Trial

variable {Obj Result : Type} (T : Trial Obj Result)

/-- **The part of one sample**: both expressions are evaluated at the same sample. -/
def step (largest : Obj) (sample : Except Failure Obj) : Except Failure Obj := do
  let x ← sample
  let reference ← T.reference x
  let candidate ← T.candidate x
  T.update largest (← T.error reference candidate)

/-- The **run of a trial**. -/
def run : Except Failure Result := do
  let samples ← T.samples
  T.conclude (← samples.foldlM T.step (← T.start))

end Trial

/-! ### Runs that end alike -/

/-- A run **mirrors another one** up to a relation: both fail in the same way, or their results are
related. -/
def Mirrors {α β : Type} (R : α → β → Prop) : Except Failure α → Except Failure β → Prop
  | .ok a, .ok b => R a b
  | .error f, .error g => f = g
  | _, _ => False

namespace Mirrors

variable {α β γ δ σ τ : Type} {R : α → β → Prop} {S : γ → δ → Prop} {x : Except Failure α}
  {y : Except Failure β}

theorem bind {f : α → Except Failure γ} {g : β → Except Failure δ} (h : Mirrors R x y)
    (hfg : ∀ a b, R a b → Mirrors S (f a) (g b)) : Mirrors S (x >>= f) (y >>= g) := by
  cases x with
  | ok a =>
    cases y with
    | ok b => exact hfg a b h
    | error _ => exact h.elim
  | error _ =>
    cases y with
    | ok _ => exact h.elim
    | error _ => exact h

/-- Going on from **the same run**, with its value. -/
theorem sameValue {f : α → Except Failure γ} {g : α → Except Failure δ} (x : Except Failure α)
    (hfg : ∀ a, x = .ok a → Mirrors S (f a) (g a)) : Mirrors S (x >>= f) (x >>= g) := by
  cases x with
  | ok a => exact hfg a rfl
  | error _ => rfl

theorem same {f : α → Except Failure γ} {g : α → Except Failure δ} (x : Except Failure α)
    (hfg : ∀ a, Mirrors S (f a) (g a)) : Mirrors S (x >>= f) (x >>= g) :=
  sameValue x fun a _ => hfg a

theorem refl (x : Except Failure α) : Mirrors Eq x x := by
  cases x <;> rfl

theorem eq {x y : Except Failure α} (h : Mirrors Eq x y) : x = y := by
  cases x with
  | ok a =>
    cases y with
    | ok b => exact congrArg Except.ok h
    | error _ => exact h.elim
  | error f =>
    cases y with
    | ok _ => exact h.elim
    | error g => exact congrArg Except.error h

/-- **Loops mirror each other** when their rounds do, from related states on. -/
theorem foldlM {R : σ → τ → Prop} {f : σ → α → Except Failure σ} {g : τ → α → Except Failure τ}
    (hstep : ∀ s t a, R s t → Mirrors R (f s a) (g t a)) (as : List α) {s : σ} {t : τ}
    (hst : R s t) : Mirrors R (as.foldlM f s) (as.foldlM g t) := by
  induction as generalizing s t with
  | nil => exact hst
  | cons a as ih =>
    rw [List.foldlM_cons, List.foldlM_cons]
    exact (hstep s t a hst).bind fun _ _ hst => ih hst

end Mirrors

/-! ### Expressions over the sample -/

/-- An expression **mentions a name** when it reads the variable or calls the function of that
name. -/
def Expr.Mentions (e : Expr) (name : String) : Prop :=
  ∃ a ∈ e.subterms, (∃ format, a.op = .var name format) ∨ a.op = .functionCall name

namespace Expr.Mentions

variable {S : NameScope} {nt : NumberType} {op : Op} {e : Expr} {es : List Expr} {name : String}

theorem of_mem (h : e.Mentions name) (he : e ∈ es) : (node op es).Mentions name :=
  let ⟨a, ha, hop⟩ := h
  ⟨a, mem_subterms_of_mem he ha, hop⟩

/-- What a quantized expression mentions is in scope. -/
theorem mem_scope (h : e.Mentions name) (he : e.Quantized S nt) :
    name ∈ S.names ∨ ∃ f ∈ S.functions, f.1 = name := by
  obtain ⟨a, ha, ⟨format, hop⟩ | hop⟩ := h
  · exact .inl (he.mem_names a ha name format hop)
  · exact .inr ⟨_, he.mem_functions a ha name hop, rfl⟩

end Expr.Mentions

/-- The expressions of a test **read the sample** and nothing else, after they were quantized: the
ends of the interval read no variable, the reference and the candidate read the one that stands for
the sample. Only some functions are called. -/
structure TestCase.ReadsSample (nt : NumberType) (functions : List (String × Nat)) (t : TestCase) :
    Prop where
  low : t.low.expr.Quantized ⟨[], [], false⟩ referenceType
  high : t.high.expr.Quantized ⟨[], [], false⟩ referenceType
  reference : t.reference.Quantized ⟨[t.argument], functions, true⟩ referenceType
  candidate : t.candidate.Quantized ⟨[t.argument], functions, true⟩ nt
  bound : ∃ x, t.maxErrorDatum = .ok x

end Elementary
