import Elementary.Failure
import Elementary.Fit.Scalars

/-!
# The levelled system

On a reference of `m + 1` points there is one polynomial with `m` given degrees whose error has one
magnitude at all of them and alternates in sign. Its coefficients and that magnitude solve a linear
system, which is decomposed by elimination with scaled pivots.

## Main definitions

* `Fit.levelledSystem`: the matrix and the right-hand side.
* `Fit.Matrix.solve?`: the solution of a system, unless a pivot is too small.
-/

namespace Elementary.Fit

variable {κ : Type}

/-- The powers of a point for a list of degrees. -/
def basis (S : Scalars κ) (degrees : List Int) (x : κ) : List κ :=
  degrees.map fun d => S.pow x d.toNat

/-- The value of the polynomial with given coefficients at a point. -/
def valueAt (S : Scalars κ) (degrees : List Int) (coefficients : List κ) (x : κ) : κ :=
  S.sum (List.zipWith S.mul coefficients (basis S degrees x))

/-- A **linear system**: the rows of the matrix, each with its right-hand side. -/
abbrev Matrix (κ : Type) := List (List κ × κ)

/-- The **levelled system** of a reference, each point with the target there: the powers of the
point, the alternating unit, and the target. -/
def levelledSystem (S : Scalars κ) (degrees : List Int) (reference : List (κ × κ)) : Matrix κ :=
  reference.mapIdx fun j (x, target) =>
    (basis S degrees x ++ [S.ofInt (if j % 2 = 0 then 1 else -1)], target)

namespace Matrix

/-- The largest of some numbers, none of them negative. -/
def maximum (S : Scalars κ) (xs : List κ) : κ := xs.foldl S.max S.zero

/-- The sums of the magnitudes in each column. -/
def columnSums (S : Scalars κ) (rows : Matrix κ) : List κ :=
  let width := (rows.map fun r => r.1.length).foldl Nat.max 0
  (List.range width).map fun j =>
    S.sum (rows.map fun r => S.abs ((r.1[j]?).getD S.zero))

/-- The row whose first entry is the largest **relative to the sum of the row**, with its place:
of equal ones the first. Fails when a row is too small. -/
def choosePivot? (S : Scalars κ) (tolerance : κ) (rows : Matrix κ) : Option Nat := do
  let step (best : Option (Nat × κ) × Nat) (row : List κ × κ) :
      Option (Option (Nat × κ) × Nat) := do
    let (chosen, index) := best
    let total := S.sum (row.1.map S.abs)
    if S.le total tolerance then none
    let current := S.mul (S.div (S.ofInt 1) total) (S.abs ((row.1.head?).getD S.zero))
    let biggest := (chosen.map Prod.snd).getD S.zero
    return (if S.lt biggest current then some (index, current) else chosen, index + 1)
  let (chosen, _) ← rows.foldlM step (none, 0)
  return (← chosen).1

/-- A row with a multiple of the pivot row taken off, its first entry dropped. -/
def eliminate (S : Scalars κ) (pivot : List κ × κ) (row : List κ × κ) : List κ × κ :=
  let factor := S.div ((row.1.head?).getD S.zero) ((pivot.1.head?).getD S.zero)
  (List.zipWith (fun a p => S.sub a (S.mul factor p)) row.1.tail pivot.1.tail,
    S.sub row.2 (S.mul factor pivot.2))

/-- The list with the entries at zero and at `i` exchanged. -/
def swapFirst {α : Type} (l : List α) (i : Nat) : List α :=
  match l[0]?, l[i]? with
  | some a, some b => (l.set 0 b).set i a
  | _, _ => l

/-- The solution of a triangular system given from the last row up. -/
def backSubstitute (S : Scalars κ) (pivots : Matrix κ) : List κ :=
  pivots.foldl (fun solution (row, right) =>
    let rest := (List.zip row.tail solution).foldl (fun r (a, x) => S.sub r (S.mul a x)) right
    S.div rest ((row.head?).getD S.zero) :: solution) []

/-- The pivot rows of a system, the last first; `fuel` is the number of rows. -/
def triangularize? (S : Scalars κ) (tolerance : κ) :
    (fuel : Nat) → Matrix κ → (pivots : Matrix κ) → Option (Matrix κ)
  | 0, _, pivots => some pivots
  | fuel + 1, rows, pivots => do
    let chosen ← if rows.length = 1 then some 0 else choosePivot? S tolerance rows
    match swapFirst rows chosen with
    | [] => some pivots
    | pivot :: rest =>
      if S.le (S.abs ((pivot.1.head?).getD S.zero)) tolerance then none
      else triangularize? S tolerance fuel (rest.map (eliminate S pivot)) (pivot :: pivots)

/-- The **solution of a linear system**, or `none` when a pivot or a row is at most `epsilon` times
the largest column sum. -/
def solve? (S : Scalars κ) (epsilon : κ) (rows : Matrix κ) : Option (List κ) := do
  let tolerance := S.mul (maximum S (columnSums S rows)) epsilon
  let pivots ← triangularize? S tolerance rows.length rows []
  return backSubstitute S pivots

end Matrix

end Elementary.Fit
