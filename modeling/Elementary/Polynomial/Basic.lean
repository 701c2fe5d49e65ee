import Elementary.Number.Arithmetic

/-!
# Polynomials

A polynomial is a list of monomials with distinct degrees, in the order in which they were given.
A parity names the degrees that an approximation may use.

## Main definitions

* `Polynomial`: coefficients under their degrees.
* `Polynomial.degree`, `Polynomial.coefficient`: the top degree, and the coefficient of a degree.
* `Polynomial.select`: the monomials that satisfy a condition, their degrees shifted.
* `Polynomial.hornerM`: a Horner scheme in any arithmetic, and `Polynomial.evaluate`.
* `Parity`: odd, even or no symmetry.
-/

namespace Elementary

/-- A **polynomial**: coefficients under distinct degrees. -/
structure Polynomial (κ : Type) where
  coefficients : List (Int × κ)

namespace Polynomial

variable {κ : Type}

/-- Puts a coefficient under a degree, in the place of an earlier one if there is one. -/
def insert (d : Int) (c : κ) : List (Int × κ) → List (Int × κ)
  | [] => [(d, c)]
  | (d', c') :: rest => if d = d' then (d, c) :: rest else (d', c') :: insert d c rest

/-- The polynomial of a list of monomials; of equal degrees the last counts. -/
def ofList (monomials : List (Int × κ)) : Polynomial κ :=
  ⟨monomials.foldl (fun cs (d, c) => insert d c cs) []⟩

/-- The degrees in increasing order. -/
def degrees (p : Polynomial κ) : List Int :=
  (p.coefficients.map Prod.fst).mergeSort (fun a b => decide (a ≤ b))

/-- The **degree**: the largest one, zero for no monomials. -/
def degree (p : Polynomial κ) : Int :=
  match p.coefficients with
  | [] => 0
  | (d, _) :: rest => rest.foldl (fun m (d, _) => max m d) d

/-- The **coefficient** of a degree, zero when there is no such monomial. -/
def coefficient [Zero κ] (p : Polynomial κ) (d : Int) : κ := (p.coefficients.lookup d).getD 0

/-- The monomials by increasing degree. -/
def monomials [Zero κ] (p : Polynomial κ) : List (Int × κ) :=
  p.degrees.map fun d => (d, p.coefficient d)

/-- The monomials that satisfy a condition, with every **degree shifted** by `offset`. -/
def select (p : Polynomial κ) (condition : Int → κ → Bool) (offset : Int) : Polynomial κ :=
  ofList ((p.coefficients.filter fun (d, c) => condition d c).map fun (d, c) => (d + offset, c))

/-- The degrees from `d` down to zero, both included; none for a negative `d`. -/
def downFrom (d : Int) : List Int := (List.range (d + 1).toNat).reverse.map fun n : Nat => (n : Int)

/-- The **Horner scheme**: from the top degree down, `step` joins the value so far with the next
coefficient. -/
def hornerM {m : Type → Type} [Monad m] [Zero κ] (p : Polynomial κ) (step : κ → κ → m κ) : m κ :=
  (downFrom p.degree).foldlM (fun value d => step value (p.coefficient d)) 0

/-- The **value** of a polynomial, in the arithmetic of its coefficients. -/
def evaluate [Zero κ] [Add κ] [Mul κ] (p : Polynomial κ) (x : κ) : κ :=
  Id.run (p.hornerM fun value c => pure (value * x + c))

end Polynomial

instance : Zero Number := ⟨.integer 0⟩

/-- The value of a polynomial with written coefficients at a written number. -/
def Polynomial.evaluateAt (p : Polynomial Number) (x : Number) : Except Failure Number :=
  p.hornerM fun value c => do (← value.mul x).add c

/-- A polynomial with written coefficients as text, by increasing degree. -/
def Polynomial.text (p : Polynomial Number) : String :=
  " + ".intercalate (p.monomials.map fun (d, c) => c.text ++ "*x^" ++ toString d)

/-- The **symmetry** of a function, which fixes the degrees of its approximations. -/
inductive Parity where
  | odd
  | even
  | none
  deriving DecidableEq, Repr

namespace Parity

/-- The name of a parity. -/
def name : Parity → String
  | odd => "odd"
  | even => "even"
  | none => "none"

/-- The parity with a given name. -/
def ofName (s : String) : Except Failure Parity :=
  match [odd, even, none].find? (·.name = s) with
  | some p => .ok p
  | .none => .error (.unknownParity (Text.quoted s))

/-- The **degrees** of an approximation with `count` terms. -/
def degrees (p : Parity) (count : Nat) : List Int :=
  (List.range count).map fun i : Nat =>
    match p with
    | odd => 2 * (i : Int) + 1
    | even => 2 * (i : Int)
    | none => (i : Int)

end Parity

end Elementary
