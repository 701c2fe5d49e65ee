import Elementary.Failure

/-!
# Messages

Every stage of a generation reports what it does. A message has a level, and the level of an
informative message names the stage that sends it. A computation is traced: it collects its
messages in order, and keeps them when it fails. Which messages are shown is decided afterwards,
from the levels that are enabled.

## Main definitions

* `Level`: the levels, and `Level.admits`, by which an enabled level lets messages through.
* `Event`: a message with its level.
* `Traced`: computations that report and may fail.
* `report`, `abort`: to report, and to fail with a message.
-/

namespace Elementary

/-- A **level**: a name, and for informative messages the stage that sends them. -/
structure Level where
  name : String
  stage : Option String
  deriving DecidableEq, Repr

namespace Level

/-- How a level is shown. -/
def text (l : Level) : String :=
  match l.stage with
  | none => l.name
  | some stage => l.name ++ "[" ++ stage ++ "]"

/-- Whether an enabled level **admits** a message: the names agree, and the stages too unless the
enabled level names none. -/
def admits (enabled message : Level) : Bool :=
  enabled.name == message.name && (enabled.stage.isNone || enabled.stage == message.stage)

/-- The level of fatal messages. -/
def error : Level := ⟨"Error", none⟩

/-- The level of warnings. -/
def warning : Level := ⟨"Warning", none⟩

/-- The level of the informative messages of a stage. -/
def info (stage : String) : Level := ⟨"Info", some stage⟩

/-- The stages that can be traced one by one. -/
def stages : List String :=
  ["approx", "quantization", "passes", "oracle", "codegen", "driver"]

end Level

/-- A **message** that was reported. -/
structure Event where
  level : Level
  text : String
  deriving DecidableEq, Repr

/-- The line that shows a message. -/
def Event.line (e : Event) : String := e.level.text ++ ": " ++ e.text

/-- A **traced computation**: it may fail, and its messages are kept either way. -/
abbrev Traced := ExceptT Failure (StateM (Array Event))

namespace Traced

/-- Reports a message. -/
def report (level : Level) (text : String) : Traced Unit :=
  modify fun events => events.push ⟨level, text⟩

/-- Fails after reporting why. -/
def abort {α : Type} (text : String) (f : Failure) : Traced α := do
  report .error text
  throw f

/-- A computation without messages. -/
def ofExcept {α : Type} : Except Failure α → Traced α
  | .ok a => pure a
  | .error f => throw f

/-- A computation whose failure is **reported** when there is something to say about it. -/
def reported {α : Type} : Except Failure α → Traced α
  | .ok a => pure a
  | .error f => do
    match f.report? with
    | some text => report .error text
    | none => pure ()
    throw f

/-- The **outcome** of a traced computation and its messages. -/
def collect {α : Type} (x : Traced α) : Except Failure α × List Event :=
  let (outcome, events) := StateT.run (ExceptT.run x) #[]
  (outcome, events.toList)

/-- The outcome of a traced computation. -/
def outcome {α : Type} (x : Traced α) : Except Failure α := x.collect.1

/-- The messages of a traced computation. -/
def events {α : Type} (x : Traced α) : List Event := x.collect.2

end Traced

end Elementary
