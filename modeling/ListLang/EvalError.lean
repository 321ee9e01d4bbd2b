import ListLang.Value

/-! Why an evaluation fails. Errors show expressions and values by their texts. -/

namespace ListLang

inductive Operator where
  | add
  | sub
  | mul
  | div
  | mod
  deriving DecidableEq

namespace Operator

def symbol : Operator → String
  | add => "+"
  | sub => "-"
  | mul => "*"
  | div => "/"
  | mod => "%"

def ofText? (s : String) : Option Operator := [add, sub, mul, div, mod].find? (·.symbol = s)

end Operator

inductive EvalError where
  /-- An atom that is no literal. -/
  | invalidLiteral (cause : LiteralError)
  /-- Data of a host program that no value stands for. -/
  | unsupported (shown type : String)
  | notNumber (operand : String)
  | nameNotAtom (name : String)
  | templateNotText (type : ValueType)
  | divisionByZero (op : Operator) (a b : String)
  | unbound (name : String)
  | operandCount (op : Operator) (given : Nat)
  | incompleteDefinition
  | missingTemplate
  | notCallable (head : String)
  | tooDeep (limit : Nat)
  | sinkFull
  | builtin (reason : String)
  deriving DecidableEq

def EvalError.message : EvalError → String
  | .invalidLiteral cause => "value error: " ++ cause.message
  | .unsupported shown type => "value error: unsupported value " ++ shown ++ " (" ++ type ++ ")"
  | .notNumber v => "value error: operand " ++ v ++ " is not a number"
  | .nameNotAtom e => "value error: function name must be an atom, got " ++ e
  | .templateNotText type => "value error: format string must be a string, got " ++ type.name
  | .divisionByZero op a b => "division by zero: " ++ a ++ " " ++ op.symbol ++ " " ++ b
  | .unbound name => "unbound identifier: " ++ Text.quote name
  | .operandCount op n =>
    "wrong number of arguments: " ++ op.symbol ++ " expects 2 operands, got " ++ natText n
  | .incompleteDefinition => "wrong number of arguments: def expects a name and a parameter list"
  | .missingTemplate => "wrong number of arguments: format expects at least 1 argument"
  | .notCallable e => "not callable: " ++ e
  | .tooDeep limit => "maximum recursion depth exceeded (" ++ natText limit ++ ")"
  | .sinkFull => "sink is full"
  | .builtin reason => reason

end ListLang
