import Elementary.Log.Basic

/-!
# Consoles

A console decides which messages are shown, and where: only those that an enabled level admits, on
a stream, on the standard output, or on both. When asked to, it ends the program at the first
fatal message instead of letting the failure through.

## Main definitions

* `Console`: the choices.
* `Console.enable`: another level enabled.
* `Console.report`: a message shown, and the failure that a fatal one ends in.
* `Run`: computations on a console.
-/

namespace Elementary

/-- A **console**: the enabled levels in the order in which they were enabled, where messages are
shown, and whether a fatal message ends the program. -/
structure Console where
  levels : List Level := [Level.error]
  toStream : Bool := false
  toOutput : Bool := false
  exitOnError : Bool := false
  deriving DecidableEq, Repr

/-- What is **shown while a program runs**: lines on the stream and on the standard output, and the
complaint at its end. -/
structure Transcript where
  stream : List String := []
  output : List String := []
  complaint : Option String := none
  deriving DecidableEq, Repr

/-- A **run**: a computation that changes a console, shows lines, and may fail. What it has shown is
kept when it fails. -/
abbrev Run := ExceptT Failure (StateM (Console × Transcript))

namespace Console

/-- Whether messages of a level are shown. -/
def isEnabled (c : Console) (l : Level) : Bool := c.levels.any (·.admits l)

end Console

namespace Run

/-- The console. -/
def console : Run Console := Prod.fst <$> get

/-- Changes the console. -/
def configure (f : Console → Console) : Run Unit := modify fun (c, t) => (f c, t)

/-- Prints lines on the standard output. -/
def print (lines : List String) : Run Unit :=
  modify fun (c, t) => (c, { t with output := t.output ++ lines })

/-- **Shows a message** if its level is enabled. -/
def display (e : Event) : Run Unit :=
  modify fun (c, t) =>
    if c.isEnabled e.level then
      (c, { t with
        stream := if c.toStream then t.stream ++ [e.line] else t.stream
        output := if c.toOutput then t.output ++ [e.line] else t.output })
    else (c, t)

/-- Shows a **fatal message** and fails; the program is ended if the console says so. -/
def abort {α : Type} (text : String) (f : Failure) : Run α := do
  display ⟨.error, text⟩
  throw (if (← console).exitOnError then .exit 1 else f)

/-- Shows the messages of a computation in order, up to the first fatal one if that ends the
program. -/
def displayAll : List Event → Run Unit
  | [] => pure ()
  | e :: rest => do
    display e
    if e.level = .error ∧ (← console).exitOnError then throw (.exit 1)
    displayAll rest

/-- A **traced computation on a console**. -/
def ofTraced {α : Type} (x : Traced α) : Run α := do
  let (outcome, events) := x.collect
  displayAll events
  match outcome with
  | .ok a => return a
  | .error f => throw f

/-- **Enables a level**; a warning is shown when informative messages of an unknown stage are asked
for. -/
def enable (l : Level) : Run Unit := do
  match l.stage with
  | some stage =>
    if l.name = "Info" ∧ stage ∉ Level.stages then
      display ⟨.warning, "unknown generation stage " ++ stage ++ " (known stages are: " ++
        ", ".intercalate Level.stages ++ ")"⟩
  | none => pure ()
  configure fun c => { c with levels := c.levels ++ [l] }

/-- The outcome of a run from a console on, the console behind it, and what was shown. -/
def start {α : Type} (x : Run α) (c : Console) : Except Failure α × Console × Transcript :=
  let (outcome, final) := StateT.run (ExceptT.run x) (c, ({} : Transcript))
  (outcome, final)

end Run

end Elementary
