import Elementary.Proofs.C.Token

/-!
# The syntax of C expressions

The tokens of an expression are read from left to right into a tree of operators. What is begun
and not yet complete waits on a stack: an open parenthesis, an operator that lacks its right
operand, a call that lacks arguments. In front of an operator, everything on the stack that binds
at least as tightly is completed first. Calls and selections bind most tightly, then come the
operators and casts in front of an operand, then the operators between two operands in their ten
levels, each grouping from the left, and last the conditional, which groups from the right.

Operators that assign and the comma operator have no place in the trees.

## Main definitions

* `Tree`: the trees of operators.
* `level?`: how tightly an operator binds.
* `step`: what one token does.
* `parse`: the tree of a text.
-/

namespace Elementary.C

/-- The **operator tree** of an expression. Parentheses that only group leave no trace in it. -/
inductive Tree where
  | name (name : String)
  | number (spelling : String)
  | call (function : Tree) (arguments : List Tree)
  | member (operand : Tree) (name : String)
  | unary (operator : String) (operand : Tree)
  | cast (type : String) (operand : Tree)
  | binary (operator : String) (left right : Tree)
  | conditional (condition ifTrue ifFalse : Tree)
  deriving Repr

/-! ### Words and operators -/

/-- The words of the names of arithmetic types, and those of the two types of generated code. -/
def typeWords : List String :=
  ["void", "char", "short", "int", "long", "float", "double", "signed", "unsigned", "_Bool",
    "_Complex", "_Imaginary", "f32", "f64"]

/-- The words that are no names for another reason. -/
def keywords : List String :=
  ["auto", "break", "case", "const", "continue", "default", "do", "else", "enum", "extern", "for",
    "goto", "if", "inline", "register", "restrict", "return", "sizeof", "static", "struct",
    "switch", "typedef", "union", "volatile", "while"]

/-- Whether a word can be the name of something. -/
def isFreeWord (w : String) : Bool := !typeWords.contains w && !keywords.contains w

/-- Whether a text is a **name**: an identifier that is free. -/
def isName (s : String) : Bool := Token.isIdentifier s && isFreeWord s

/-- The operators in front of one operand. -/
def unaryOperators : List String := ["-", "+", "!", "~", "*", "&"]

/-- The operators between two operands, **by levels**. -/
def levels : List (List String × Nat) :=
  [(["*", "/", "%"], 13), (["+", "-"], 12), (["<<", ">>"], 11), (["<", ">", "<=", ">="], 10),
    (["==", "!="], 9), (["&"], 8), (["^"], 7), (["|"], 6), (["&&"], 5), (["||"], 4)]

/-- **How tightly** an operator between two operands binds. -/
def level? (operator : String) : Option Nat :=
  (levels.find? fun row => row.1.contains operator).map Prod.snd

/-- The level of a conditional whose last part is awaited. -/
def conditionalLevel : Nat := 3

/-- The level of an operator in front of its operand. -/
def unaryLevel : Nat := 14

/-! ### The stack -/

/-- Something **begun** that waits for what is being read. -/
inductive Frame where
  /-- An open parenthesis. -/
  | group
  /-- A call, with the arguments that are complete. -/
  | call (function : Tree) (done : List Tree)
  | unary (operator : String)
  | cast (type : String)
  | binary (operator : String) (left : Tree)
  /-- A conditional up to its question mark. -/
  | question (condition : Tree)
  /-- A conditional up to its colon. -/
  | colon (condition ifTrue : Tree)

namespace Frame

/-- How tightly a frame binds what it waits for; what ends at a mark of its own does not bind. -/
def level : Frame → Nat
  | group | call _ _ | question _ => 0
  | unary _ | cast _ => unaryLevel
  | binary operator _ => (level? operator).getD 0
  | colon _ _ => conditionalLevel

/-- The tree of a frame and of what it waited for. -/
def complete : Frame → Tree → Tree
  | unary operator, t => .unary operator t
  | cast type, t => .cast type t
  | binary operator left, t => .binary operator left t
  | colon condition ifTrue, t => .conditional condition ifTrue t
  | _, t => t

end Frame

/-- Completes what binds **at least as tightly** as a level. -/
def reduce (level : Nat) : List Frame → Tree → List Frame × Tree
  | [], t => ([], t)
  | f :: fs, t => if level ≤ f.level then reduce level fs (f.complete t) else (f :: fs, t)

/-- Completes everything up to the innermost mark that is open. -/
def reduceAll : List Frame → Tree → List Frame × Tree := reduce 1

/-! ### Reading tokens -/

/-- What the next token is **expected** to be. -/
inductive Phase where
  /-- The beginning of an operand. -/
  | operand
  /-- Right behind a parenthesis: the beginning of an operand, or of the name of a type. -/
  | opened
  /-- Right behind the parenthesis of a call: the beginning of an operand, or the end. -/
  | arguments
  /-- In the name of a type. -/
  | type (words : List String)
  /-- Behind a point: the name of a member. -/
  | selected (operand : Tree)
  /-- Behind an operand: anything that goes on from there. -/
  | complete (operand : Tree)

/-- How far an expression has been read. -/
structure State where
  frames : List Frame
  phase : Phase

/-- A token where an **operand begins**. -/
def stepOperand (frames : List Frame) : Token → Option State
  | .word w => if isFreeWord w then some ⟨frames, .complete (.name w)⟩ else none
  | .number n => some ⟨frames, .complete (.number n)⟩
  | .mark m =>
    if m = "(" then some ⟨.group :: frames, .opened⟩
    else if unaryOperators.contains m then some ⟨.unary m :: frames, .operand⟩
    else none

/-- A parenthesis **closes** what is open: a group or a call. -/
def close : List Frame × Tree → Option State
  | (.group :: frames, t) => some ⟨frames, .complete t⟩
  | (.call f done :: frames, t) => some ⟨frames, .complete (.call f (done ++ [t]))⟩
  | _ => none

/-- A comma **separates** the arguments of a call. -/
def separate : List Frame × Tree → Option State
  | (.call f done :: frames, t) => some ⟨.call f (done ++ [t]) :: frames, .operand⟩
  | _ => none

/-- A colon ends the middle part of a conditional. -/
def choose : List Frame × Tree → Option State
  | (.question condition :: frames, t) => some ⟨.colon condition t :: frames, .operand⟩
  | _ => none

/-- A mark **behind an operand**. -/
def stepMark (frames : List Frame) (t : Tree) (m : String) : Option State :=
  if m = "(" then some ⟨.call t [] :: frames, .arguments⟩
  else if m = "." then some ⟨frames, .selected t⟩
  else if m = ")" then close (reduceAll frames t)
  else if m = "," then separate (reduceAll frames t)
  else if m = ":" then choose (reduceAll frames t)
  else if m = "?" then
    let (frames, t) := reduce (conditionalLevel + 1) frames t
    some ⟨.question t :: frames, .operand⟩
  else do
    let level ← level? m
    let (frames, t) := reduce level frames t
    return ⟨.binary m t :: frames, .operand⟩

/-- What **one token** does. -/
def step (s : State) (token : Token) : Option State :=
  match s.phase, token with
  | .opened, .word w =>
    if typeWords.contains w then some ⟨s.frames, .type [w]⟩ else stepOperand s.frames token
  | .type words, .word w =>
    if typeWords.contains w then some ⟨s.frames, .type (words ++ [w])⟩ else none
  | .type words, .mark ")" =>
    match s.frames with
    | .group :: frames => some ⟨.cast (" ".intercalate words) :: frames, .operand⟩
    | _ => none
  | .type _, _ => none
  | .arguments, .mark ")" =>
    match s.frames with
    | .call f done :: frames => some ⟨frames, .complete (.call f done)⟩
    | _ => none
  | .selected t, .word w =>
    if isFreeWord w then some ⟨s.frames, .complete (.member t w)⟩ else none
  | .selected _, _ => none
  | .complete t, .mark m => stepMark s.frames t m
  | .complete _, _ => none
  | _, _ => stepOperand s.frames token

/-- Reads tokens one after the other. -/
def run (s : State) (tokens : List Token) : Option State := tokens.foldlM step s

/-- The tree of an expression that has been read to its end. -/
def State.tree? (s : State) : Option Tree :=
  match s.phase with
  | .complete t =>
    match reduceAll s.frames t with
    | ([], t) => some t
    | _ => none
  | _ => none

/-- The **operator tree of a text**, if it is an expression. -/
def parse (s : String) : Option Tree := do
  (← run ⟨[], .operand⟩ (← lex s)).tree?

/-! ### Examples of C's rules -/

example : parse "a - b - c * -d.e" =
    some (.binary "-" (.binary "-" (.name "a") (.name "b"))
      (.binary "*" (.name "c") (.unary "-" (.member (.name "d") "e")))) := by
  rfl

example : parse "c ? a : d ? (long long) x & 1 : f(y)" =
    some (.conditional (.name "c") (.name "a") (.conditional (.name "d")
      (.binary "&" (.cast "long long" (.name "x")) (.number "1"))
      (.call (.name "f") [.name "y"]))) := by
  rfl

end Elementary.C
