import Elementary.Failure
import Elementary.Fit.Scalars

/-!
# Extrema of an error

The error of a fit is sampled on a grid. The samples fall into runs of one sign, and the largest
error of each run is sought between the neighbours of its grid point, by golden-section search. An
exchange keeps as many of these extrema as it needs, giving up the smaller end first.

## Main definitions

* `Fit.Peak`: a place with the error there.
* `Fit.Bracket`: the state of a golden-section search, and `Fit.refine`, the search.
* `Fit.signRuns`: the largest error of each run of one sign.
* `Fit.extrema`: the extrema of an error, of alternating signs.
* `Fit.trim`: the extrema that an exchange keeps.
-/

namespace Elementary.Fit

variable {κ : Type}

/-- A **place** with the error there. -/
structure Peak (κ : Type) where
  place : κ
  error : κ
  deriving DecidableEq, Repr

/-- The state of a golden-section search for a maximum: an interval and two probes inside it, the
left one below the right one, each with its height. -/
structure Bracket (κ : Type) where
  low : κ
  high : κ
  left : Peak κ
  right : Peak κ

namespace Bracket

/-- The probe of an interval next to its lower end. -/
def lowProbe (S : Scalars κ) (ratio low high : κ) : κ :=
  S.sub high (S.mul ratio (S.sub high low))

/-- The probe of an interval next to its upper end. -/
def highProbe (S : Scalars κ) (ratio low high : κ) : κ :=
  S.add low (S.mul ratio (S.sub high low))

/-- The state in which a search begins. -/
def start (S : Scalars κ) (ratio : κ) (height : κ → Except Failure κ) (low high : κ) :
    Except Failure (Bracket κ) := do
  let c := lowProbe S ratio low high
  let d := highProbe S ratio low high
  let left ← height c
  let right ← height d
  return ⟨low, high, ⟨c, left⟩, ⟨d, right⟩⟩

/-- One step of a search: the interval loses the end next to the **lower probe**, the higher probe
is kept, and a new one is set. -/
def step (S : Scalars κ) (ratio : κ) (height : κ → Except Failure κ) (b : Bracket κ) :
    Except Failure (Bracket κ) := do
  if S.lt b.right.error b.left.error then
    let c := lowProbe S ratio b.low b.right.place
    return ⟨b.low, b.right.place, ⟨c, ← height c⟩, b.left⟩
  else
    let d := highProbe S ratio b.left.place b.high
    return ⟨b.left.place, b.high, b.right, ⟨d, ← height d⟩⟩

/-- Several steps of a search. -/
def steps (S : Scalars κ) (ratio : κ) (height : κ → Except Failure κ) :
    Nat → Bracket κ → Except Failure (Bracket κ)
  | 0, b => .ok b
  | n + 1, b => do steps S ratio height n (← b.step S ratio height)

/-- The higher of the two probes, the right one when they are equal. -/
def best (S : Scalars κ) (b : Bracket κ) : Peak κ :=
  if S.lt b.right.error b.left.error then b.left else b.right

end Bracket

/-- The number of steps of a golden-section search. -/
def searchSteps : Nat := 40

/-- The place between `low` and `high` where a **golden-section search** finds the largest error
of a sign. -/
def refine (S : Scalars κ) (ratio : κ) (count : Nat) (error : κ → Except Failure κ)
    (positive : Bool) (low high : κ) : Except Failure (Peak κ) := do
  let height (x : κ) : Except Failure κ := return S.signed positive (← error x)
  let first ← Bracket.start S ratio height low high
  let found := (← first.steps S ratio height count).best S
  return { found with error := S.signed positive found.error }

/-- The **runs of one sign** in a list of numbered errors: of each run the largest error, of equal
ones the first. Errors that are zero belong to no run and end none. -/
def signRuns (S : Scalars κ) : List (Nat × κ) → List (Nat × κ)
  | [] => []
  | p :: ps =>
    let positive := S.lt S.zero p.2
    if !positive && !S.lt p.2 S.zero then signRuns S ps
    else match signRuns S ps with
      | [] => [p]
      | q :: qs =>
        if S.lt S.zero q.2 != positive then p :: q :: qs
        else if S.lt (S.abs p.2) (S.abs q.2) then q :: qs
        else p :: qs

/-- The **extrema of an error**, from its values on a grid: one for each run of one sign. A grid
point inside the grid gives way to a larger error found between its neighbours. -/
def extrema (S : Scalars κ) (ratio : κ) (error : κ → Except Failure κ) (grid : Array (Peak κ)) :
    Except Failure (List (Peak κ)) :=
  (signRuns S (grid.toList.mapIdx fun i p => (i, p.error))).filterMapM fun (i, e) => do
    match grid[i]? with
    | none => return none
    | some sampled =>
      if i = 0 then return some sampled
      else match grid[i - 1]?, grid[i + 1]? with
        | some before, some after => do
          let found ← refine S ratio searchSteps error (S.lt S.zero e) before.place after.place
          return some (if S.lt (S.abs sampled.error) (S.abs found.error) then found else sampled)
        | _, _ => return some sampled

/-- The extrema that an exchange **keeps**: while there are too many, the first is given up when
its error is smaller than that of the last, and else the last. -/
def trim (S : Scalars κ) (count : Nat) (peaks : List (Peak κ)) : List (Peak κ) :=
  if _h : count < peaks.length then
    match peaks.head?, peaks.getLast? with
    | some first, some last =>
      if S.lt (S.abs first.error) (S.abs last.error) then trim S count peaks.tail
      else trim S count peaks.dropLast
    | _, _ => peaks
  else peaks
termination_by peaks.length
decreasing_by all_goals simp; omega

end Elementary.Fit
