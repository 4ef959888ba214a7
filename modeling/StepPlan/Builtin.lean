import StepPlan.Binary64.Hypotenuse
import StepPlan.Tagged

/-! The operators and elementary functions that every model may use, with the number of
operands, the written symbol and the value of each. An application has a value only for the
right number of operands.
-/

namespace StepPlan

/-- The builtin operators. Truth is `1` or `0`, and everything but zero counts as true. -/
inductive Operator where
  | add
  | subtract
  | multiply
  | divide
  | modulo
  | power
  | negate
  | greater
  | less
  | greaterEqual
  | lessEqual
  | equal
  | and
  | or
  | not
  | ternary
  deriving DecidableEq

namespace Operator

instance : Tagged Operator where
  all := [.add, .subtract, .multiply, .divide, .modulo, .power, .negate, .greater, .less,
    .greaterEqual, .lessEqual, .equal, .and, .or, .not, .ternary]
  tag
    | .add => "Add"
    | .subtract => "Subtract"
    | .multiply => "Multiply"
    | .divide => "Divide"
    | .modulo => "Modulo"
    | .power => "Power"
    | .negate => "Negate"
    | .greater => "Greater"
    | .less => "Less"
    | .greaterEqual => "GreaterEqual"
    | .lessEqual => "LessEqual"
    | .equal => "Equal"
    | .and => "And"
    | .or => "Or"
    | .not => "Not"
    | .ternary => "Ternary"

/-- The number of builtin operators. -/
def count : Nat := 16

/-- The position of an operator in the list of all operators. -/
def number (op : Operator) : Nat :=
  Tagged.all.idxOf op

/-- How many operands an operator takes. -/
def arity : Operator → Nat
  | .negate | .not => 1
  | .ternary => 3
  | _ => 2

/-- The written form of an operator. -/
def symbol : Operator → String
  | .add => "+"
  | .subtract => "-"
  | .multiply => "*"
  | .divide => "/"
  | .modulo => "%"
  | .power => "^"
  | .negate => "neg"
  | .greater => ">"
  | .less => "<"
  | .greaterEqual => ">="
  | .lessEqual => "<="
  | .equal => "=="
  | .and => "&&"
  | .or => "||"
  | .not => "!"
  | .ternary => "?:"

/-- The value of an operator with one operand. -/
def applyOne? (op : Operator) (x : Binary64) : Option Binary64 :=
  match op with
  | .negate => some (.ofFloat (-x.toFloat))
  | .not => some (.ofBool (!x.isTrue))
  | _ => none

/-- The value of an operator with two operands. -/
def applyTwo? (op : Operator) (x y : Binary64) : Option Binary64 :=
  match op with
  | .add => some (.ofFloat (x.toFloat + y.toFloat))
  | .subtract => some (.ofFloat (x.toFloat - y.toFloat))
  | .multiply => some (.ofFloat (x.toFloat * y.toFloat))
  | .divide => some (.ofFloat (x.toFloat / y.toFloat))
  | .modulo => some (x.remainder y)
  | .power => some (x.power y)
  | .greater => some (.ofBool (decide (y.toFloat < x.toFloat)))
  | .less => some (.ofBool (decide (x.toFloat < y.toFloat)))
  | .greaterEqual => some (.ofBool (decide (y.toFloat ≤ x.toFloat)))
  | .lessEqual => some (.ofBool (decide (x.toFloat ≤ y.toFloat)))
  | .equal => some (.ofBool (x.sameValue y))
  | .and => some (.ofBool (x.isTrue && y.isTrue))
  | .or => some (.ofBool (x.isTrue || y.isTrue))
  | _ => none

/-- The value of an application, if it has the right number of operands. -/
def evaluate? (op : Operator) (operands : List Binary64) : Option Binary64 :=
  match op, operands with
  | .ternary, [condition, yes, no] => some (if condition.isTrue then yes else no)
  | _, [x] => op.applyOne? x
  | _, [x, y] => op.applyTwo? x y
  | _, _ => none

end Operator

/-- The elementary functions. -/
inductive Elementary where
  | sin
  | cos
  | tan
  | asin
  | acos
  | atan
  | atan2
  | sinh
  | cosh
  | tanh
  | sqrt
  | exp
  | ln
  | log10
  | abs
  | floor
  | ceil
  | round
  | min
  | max
  | hypot
  deriving DecidableEq

namespace Elementary

instance : Tagged Elementary where
  all := [.sin, .cos, .tan, .asin, .acos, .atan, .atan2, .sinh, .cosh, .tanh, .sqrt, .exp,
    .ln, .log10, .abs, .floor, .ceil, .round, .min, .max, .hypot]
  tag
    | .sin => "Sin"
    | .cos => "Cos"
    | .tan => "Tan"
    | .asin => "Asin"
    | .acos => "Acos"
    | .atan => "Atan"
    | .atan2 => "Atan2"
    | .sinh => "Sinh"
    | .cosh => "Cosh"
    | .tanh => "Tanh"
    | .sqrt => "Sqrt"
    | .exp => "Exp"
    | .ln => "Ln"
    | .log10 => "Log10"
    | .abs => "Abs"
    | .floor => "Floor"
    | .ceil => "Ceil"
    | .round => "Round"
    | .min => "Min"
    | .max => "Max"
    | .hypot => "Hypot"

/-- The number of elementary functions. -/
def count : Nat := 21

/-- The position of a function in the list of all functions. -/
def number (fn : Elementary) : Nat :=
  Tagged.all.idxOf fn

/-- How many operands a function takes. -/
def arity : Elementary → Nat
  | .atan2 | .min | .max | .hypot => 2
  | _ => 1

/-- The written form of a function. -/
def name : Elementary → String
  | .sin => "sin"
  | .cos => "cos"
  | .tan => "tan"
  | .asin => "asin"
  | .acos => "acos"
  | .atan => "atan"
  | .atan2 => "atan2"
  | .sinh => "sinh"
  | .cosh => "cosh"
  | .tanh => "tanh"
  | .sqrt => "sqrt"
  | .exp => "exp"
  | .ln => "ln"
  | .log10 => "log10"
  | .abs => "abs"
  | .floor => "floor"
  | .ceil => "ceil"
  | .round => "round"
  | .min => "min"
  | .max => "max"
  | .hypot => "hypot"

/-- The value of a function of one operand. Rounding takes halves away from zero. -/
def applyOne? (fn : Elementary) (x : Float) : Option Float :=
  match fn with
  | .sin => some x.sin
  | .cos => some x.cos
  | .tan => some x.tan
  | .asin => some x.asin
  | .acos => some x.acos
  | .atan => some x.atan
  | .sinh => some x.sinh
  | .cosh => some x.cosh
  | .tanh => some x.tanh
  | .sqrt => some x.sqrt
  | .exp => some x.exp
  | .ln => some x.log
  | .log10 => some x.log10
  | .abs => some x.abs
  | .floor => some x.floor
  | .ceil => some x.ceil
  | .round => some x.round
  | _ => none

/-- The value of a function of two operands. -/
def applyTwo? (fn : Elementary) (x y : Binary64) : Option Binary64 :=
  match fn with
  | .atan2 => some (.ofFloat (x.toFloat.atan2 y.toFloat))
  | .min => some (x.least y)
  | .max => some (x.greatest y)
  | .hypot => some (x.hypotenuse y)
  | _ => none

/-- The value of an application, if it has the right number of operands. -/
def evaluate? (fn : Elementary) : List Binary64 → Option Binary64
  | [x] => (fn.applyOne? x.toFloat).map .ofFloat
  | [x, y] => fn.applyTwo? x y
  | _ => none

end Elementary

end StepPlan
