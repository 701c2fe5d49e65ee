import Elementary.Expr.Basic

/-!
# Descriptions of expressions

An expression is shown with one line for each operation, indented by its depth: the name, the
attribute, and below it the operands. A description may stop at a given depth.

## Main definitions

* `Expr.describe`: the whole description.
* `Expr.brief`: the description of the first three levels.
* `Expr.isShowable`: whether no number of the whole description has too many digits.
-/

namespace Elementary.Expr

/-- The mark in front of a line, once for each level. -/
def levelMark : String := "| "

/-- The indentation of a level. -/
def indentation (level : Nat) : String := String.join (List.replicate level levelMark)

mutual

/-- The description of an expression at a level, down to `depth` levels below it; nothing when
the depth is negative. -/
def describeFrom (depth : Option Int) (level : Nat) : Expr → String
  | node op operands =>
    match depth with
    | none =>
      indentation level ++ op.label ++ "\n" ++ describeAllFrom none (level + 1) operands
    | some d =>
      if d < 0 then ""
      else indentation level ++ op.label ++ "\n"
        ++ describeAllFrom (some (d - 1)) (level + 1) operands

/-- The descriptions of a list of expressions, one after the other. -/
def describeAllFrom (depth : Option Int) (level : Nat) : List Expr → String
  | [] => ""
  | e :: es => describeFrom depth level e ++ describeAllFrom depth level es

end

/-- The **description** of an expression. -/
def describe (e : Expr) : String := describeFrom none 0 e

/-- The description of the first three levels. -/
def brief (e : Expr) : String := describeFrom (some 2) 0 e

/-- Whether the number in the label of an operation can be shown. Bits are hexadecimal, and never
too long. -/
def labelIsShowable : Op → Bool
  | .constant n => n.shown.isOk
  | .tupleSelection index => Text.isShowable index.natAbs
  | _ => true

mutual

/-- Whether **every number in the description** can be shown. -/
def isShowable : Expr → Bool
  | node op operands => labelIsShowable op && allShowable operands

/-- The same for a list of expressions. -/
def allShowable : List Expr → Bool
  | [] => true
  | e :: es => isShowable e && allShowable es

end

end Elementary.Expr
