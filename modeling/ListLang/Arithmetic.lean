import ListLang.EvalError

/-! Arithmetic on two numbers. Integers wrap at 64 bits, division always gives a double, and the
remainder takes the sign of the divisor. One double among the operands makes the result a double. -/

namespace ListLang

inductive Number where
  | int (n : Int64)
  | float (x : Float)

namespace Number

def toFloat : Number → Float
  | int n => Binary64.ofInt n.toInt
  | float x => x

def isZero : Number → Bool
  | int n => n = 0
  | float x => x == 0

def toValue : Number → Value
  | int n => .int n
  | float x => .float x

end Number

def Value.number? : Value → Option Number
  | .int n => some (.int n)
  | .float x => some (.float x)
  | _ => none

/-- The remainder with the sign of the divisor `y`, which is not zero. -/
def floorModInt (x y : Int64) : Int64 :=
  let r := x % y
  if r ≠ 0 && (r < 0) != (y < 0) then r + y else r

def floorModFloat (x y : Float) : Float :=
  let r := Binary64.remainder x y
  if r != 0 && (r < 0) != (y < 0) then r + y else r

namespace Operator

/-- None when the divisor is zero. -/
def compute? (op : Operator) (a b : Number) : Option Number :=
  match op, a, b with
  | add, .int x, .int y => some (.int (x + y))
  | sub, .int x, .int y => some (.int (x - y))
  | mul, .int x, .int y => some (.int (x * y))
  | mod, .int x, .int y => if y = 0 then none else some (.int (floorModInt x y))
  | add, a, b => some (.float (a.toFloat + b.toFloat))
  | sub, a, b => some (.float (a.toFloat - b.toFloat))
  | mul, a, b => some (.float (a.toFloat * b.toFloat))
  | div, a, b => if b.isZero then none else some (.float (a.toFloat / b.toFloat))
  | mod, a, b => if b.isZero then none else some (.float (floorModFloat a.toFloat b.toFloat))

/-- The first operand that is no number is reported. -/
def apply (op : Operator) (a b : Value) : Except EvalError Value :=
  match a.number?, b.number? with
  | none, _ => .error (.notNumber a.display)
  | some _, none => .error (.notNumber b.display)
  | some x, some y =>
    match op.compute? x y with
    | some z => .ok z.toValue
    | none => .error (.divisionByZero op a.display b.display)

end Operator

end ListLang
