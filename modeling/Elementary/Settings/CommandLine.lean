import Elementary.Library
import Elementary.Log.Console

/-!
# The command line

Settings are what is chosen for one generation: the file that is written, the width and the number
type of the functions, the language, the strategy, and the file of descriptors if one is wanted.
They are chosen by options. An option takes the next argument, or what stands behind an equals
sign; its name may be cut short where it stays clear which option is meant. All arguments are
looked up before the first one takes effect. Arguments that belong to no option are refused at the
end.

## Main definitions

* `Settings`: the settings, with their standard values.
* `CommandLine.options`: the options, each with its purpose.
* `CommandLine.classify`: what an argument means.
* `Settings.ofArguments`: the settings that arguments choose.
-/

namespace Elementary

/-- The **settings of a generation**. -/
structure Settings where
  outputFile : String := "libm.c"
  width : Int := 32
  numberType : NumberType := ⟨.single, false⟩
  language : Language := .c
  strategy : String := "single_pass"
  descriptorFile : Option String := none

namespace CommandLine

/-- The name of the program. -/
def programName : String := " libmgen libm generation script"

/-- What an option is **for**. -/
inductive Purpose where
  | help
  | outputFile
  | width
  | numberType
  | language
  | strategy
  | descriptorFile
  | verbose
  | exitOnError
  deriving DecidableEq, Repr

/-- The **names of options**, in the order in which they are shown. -/
def options : List (String × Purpose) :=
  [("-h", .help), ("--help", .help), ("--output", .outputFile), ("--num-bits", .width),
    ("--number-type", .numberType), ("--language", .language), ("--strategy", .strategy),
    ("--dump-axf", .descriptorFile), ("--verbose", .verbose), ("--exit-on-error", .exitOnError)]

/-- The names of an option in messages. -/
def Purpose.names (p : Purpose) : String :=
  "/".intercalate ((options.filter (·.2 = p)).map Prod.fst)

/-- Whether an option takes a value. -/
def Purpose.takesValue : Purpose → Bool
  | .help | .exitOnError => false
  | _ => true

/-- What stands behind the name of an option in the same argument: whether an equals sign is in
between, and the text. -/
structure Attached where
  equals : Bool
  text : String
  deriving DecidableEq, Repr

/-- What an **argument means**. -/
inductive Meaning where
  /-- No option. -/
  | value
  /-- The mark behind which no options stand. -/
  | separator
  /-- An option that there is not. -/
  | unknown
  | option (purpose : Purpose) (name : String) (attached : Option Attached)
  deriving DecidableEq, Repr

/-- Ends the program with a complaint about the arguments. -/
def complain {α : Type} (text : String) : Run α := do
  modify fun (c, t) => (c, { t with complaint := some (programName ++ ": error: " ++ text) })
  throw (.exit 2)

/-- Ends the program with a complaint about an option. -/
def complainAbout {α : Type} (p : Purpose) (text : String) : Run α :=
  complain ("argument " ++ p.names ++ ": " ++ text)

/-! ### Meanings -/

/-- A text cut at the first equals sign. -/
def splitEquals (s : String) : String × Option String :=
  let cs := s.toList
  let name := cs.takeWhile (· != '=')
  (String.ofList name, (cs.drop name.length).tail?.map String.ofList)

/-- Whether a text is a negative number, which is no option. -/
def isNegativeNumber (s : String) : Bool :=
  let cs := s.toList
  let cs := if cs.getLast? = some '\n' then cs.dropLast else cs
  match cs with
  | '-' :: rest =>
    let whole := rest.takeWhile Text.isDigit
    match rest.drop whole.length with
    | [] => !whole.isEmpty
    | '.' :: behind => !behind.isEmpty && behind.all Text.isDigit
    | _ => false
  | _ => false

/-- The options that an argument with two dashes **may be short for**. -/
def longCandidates (s : String) : List (String × Purpose × Option Attached) :=
  let (name, attached) := splitEquals s
  (options.filter fun (n, _) => name.toList.isPrefixOf n.toList).map fun (n, p) =>
    (n, p, attached.map fun text => ⟨true, text⟩)

/-- The options that an argument with one dash may mean. -/
def shortCandidates (s : String) : List (String × Purpose × Option Attached) :=
  let cs := s.toList
  options.filterMap fun (n, p) =>
    if n.toList = cs.take 2 then some (n, p, some ⟨false, String.ofList (cs.drop 2)⟩)
    else if cs.isPrefixOf n.toList then some (n, p, none)
    else none

/-- What an **argument means** that stands before any separator. -/
def classify (s : String) : Run Meaning := do
  match s.toList with
  | '-' :: c :: _ =>
    let (name, attached) := splitEquals s
    match options.lookup s, options.lookup name, attached with
    | some p, _, _ => return .option p s none
    | none, some p, some text => return .option p name (some ⟨true, text⟩)
    | _, _, _ =>
      match if c = '-' then longCandidates s else shortCandidates s with
      | [(n, p, attached)] => return .option p n attached
      | a :: b :: more =>
        complain ("ambiguous option: " ++ s ++ " could match " ++
          ", ".intercalate ((a :: b :: more).map Prod.fst))
      | [] =>
        if isNegativeNumber s || s.toList.contains ' ' then return .value else return .unknown
  | _ => return .value

/-- What all arguments mean. -/
def classifyAll : List String → Run (List (String × Meaning))
  | [] => return []
  | s :: rest =>
    if s = "--" then return (s, .separator) :: rest.map fun s => (s, .value)
    else do
      let m ← classify s
      return (s, m) :: (← classifyAll rest)

/-! ### Effects -/

/-- The level that a text names: a name, and a stage behind a colon. -/
def levelOf (s : String) : Run Level := do
  match s.splitOn ":" with
  | [name] => return ⟨name, none⟩
  | [name, stage] => return ⟨name, some stage⟩
  | _ => throw .overlongLevel

/-- Enables the levels of a list. -/
def enableAll : List String → Run Unit
  | [] => pure ()
  | s :: rest => do
    Run.enable (← levelOf s)
    enableAll rest

/-- The **help text**. -/
def helpText : List String :=
  ["usage: " ++ programName ++ " [-h] [--output OUTPUT_FILE]",
    "                                       [--num-bits NUM_BITS]",
    "                                       [--number-type NUMBER_TYPE]",
    "                                       [--language LANGUAGE]",
    "                                       [--strategy \x7bsingle_pass,quadrant\x7d]",
    "                                       [--dump-axf DUMP_AXF]",
    "                                       [--verbose VERBOSE_ENABLE]",
    "                                       [--exit-on-error]",
    "",
    "options:",
    "  -h, --help            show this help message and exit",
    "  --output OUTPUT_FILE  set output file",
    "  --num-bits NUM_BITS   bit width of the generated functions (32 or 64)",
    "  --number-type NUMBER_TYPE",
    "                        select numeric representation (f32_hex, f32_simd,",
    "                        f64_hex, f64_simd)",
    "  --language LANGUAGE   select language for generated source code",
    "  --strategy \x7bsingle_pass,quadrant\x7d",
    "                        select trigonometric range reduction",
    "  --dump-axf DUMP_AXF   export approximation and test descriptors (.yaml or",
    "                        .json)",
    "  --verbose VERBOSE_ENABLE",
    "                        enable Verbose log level",
    "  --exit-on-error       convert Fatal error to sys exit rather than exception"]

/-- The part of the help text that is shown with a complaint. -/
def usageText : List String := helpText.takeWhile (· ≠ "")

/-- Takes an option **with its value** into account. -/
def applyValue (p : Purpose) (value : String) (s : Settings) : Run Settings := do
  match p with
  | .outputFile => return { s with outputFile := value }
  | .width =>
    match Literal.integer? value with
    | some n => return { s with width := n }
    | none => complainAbout p ("invalid int value: " ++ Text.quoted value)
  | .numberType => return { s with numberType := ← Run.ofTraced (Configuration.numberType value) }
  | .language => return { s with language := ← Run.ofTraced (Language.ofName value) }
  | .strategy =>
    if (Strategy.ofName? value).isSome then return { s with strategy := value }
    else
      complainAbout p ("invalid choice: " ++ Text.quoted value ++ " (choose from " ++
        Configuration.listed (Strategy.all.map fun s => Text.quoted s.name) ++ ")")
  | .descriptorFile => return { s with descriptorFile := some value }
  | .verbose =>
    enableAll (value.splitOn ",")
    return s
  | .help | .exitOnError => return s

/-- Takes an option **without a value** into account. -/
def applyFlag (p : Purpose) (s : Settings) : Run Settings := do
  match p with
  | .help =>
    Run.print helpText
    throw (.exit 0)
  | .exitOnError =>
    Run.configure fun c => { c with exitOnError := true }
    return s
  | _ => return s

/-- What may not stand behind an option of one letter without a value: anything but the same option
again, or letters of no option. -/
def refusedTail : (equals : Bool) → List Char → Option String
  | _, [] => some ""
  | equals, c :: rest =>
    if equals || c = '-' then some (String.ofList (c :: rest))
    else if c = 'h' then
      match rest with
      | [] => none
      | '=' :: rest => refusedTail true rest
      | rest => refusedTail false rest
    else none

/-- Takes an option into account with what is attached to it; gives its purpose if it still awaits
a value. -/
def applyOption (p : Purpose) (name : String) (attached : Option Attached) (s : Settings) :
    Run (Settings × Option Purpose) := do
  match attached, p.takesValue with
  | some t, true => return (← applyValue p t.text s, none)
  | some t, false =>
    let refused :=
      if name.toList.take 2 = ['-', '-'] then some t.text else refusedTail t.equals t.text.toList
    match refused with
    | some text => complainAbout p ("ignored explicit argument " ++ Text.quoted text)
    | none => return (← applyFlag p s, none)
  | none, true => return (s, some p)
  | none, false => return (← applyFlag p s, none)

/-- Takes the arguments into account **one by one**, the first being awaited by an option or not;
gives the settings and the arguments that belong to no option. -/
def applyAll : (awaiting : Option Purpose) → List (String × Meaning) → Settings →
    Run (Settings × List String)
  | some p, (value, .value) :: rest, s => do
    let s ← applyValue p value s
    applyAll none rest s
  | some p, _, _ => complainAbout p "expected one argument"
  | none, [], s => return (s, [])
  | none, (argument, meaning) :: rest, s => do
    match meaning with
    | .option p name attached =>
      let (s, awaiting) ← applyOption p name attached s
      applyAll awaiting rest s
    | _ =>
      let (s, others) ← applyAll none rest s
      return (s, argument :: others)

end CommandLine

/-- The **settings that arguments choose**, the others staying as they are. -/
def Settings.ofArguments (s : Settings) (arguments : List String) : Run Settings := do
  let meanings ← CommandLine.classifyAll arguments
  let (s, others) ← CommandLine.applyAll none meanings s
  if others.isEmpty then return s
  else CommandLine.complain ("unrecognized arguments: " ++ " ".intercalate others)

end Elementary
