import ListLang.EvalError

/-! Data that a host program offers to the language. All but truth values have a value. -/

namespace ListLang

inductive Datum where
  | nothing
  | int (n : Int64)
  | float (x : Float)
  | text (s : String)
  | list (e : Expr)
  | function (f : Function)
  | bool (b : Bool)

def Value.ofDatum : Datum → Except EvalError Value
  | .nothing => .ok .nil
  | .int n => .ok (.int n)
  | .float x => .ok (.float x)
  | .text s => .ok (.text s)
  | .list e => .ok (.list e)
  | .function f => .ok (.function f)
  | .bool b => .error (.unsupported (if b then "true" else "false") "bool")

end ListLang
