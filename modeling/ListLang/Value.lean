import ListLang.Literal
import ListLang.Number.Notation

/-! Values: what evaluation produces. -/

namespace ListLang

inductive ValueType where
  | nil
  | int
  | float
  | text
  | list
  | function
  deriving DecidableEq

namespace ValueType

def name : ValueType → String
  | nil => "nil"
  | int => "int"
  | float => "float"
  | text => "string"
  | list => "list"
  | function => "function"

/-- All types in the order of their codes, which count from 0. -/
def all : List ValueType := [nil, int, float, text, list, function]

def ofCode? (code : Nat) : Option ValueType := all[code]?

def code : ValueType → Nat
  | nil => 0
  | int => 1
  | float => 2
  | text => 3
  | list => 4
  | function => 5

end ValueType

/-- A definition: its name, the parameter as it was written, and the expressions to evaluate. -/
structure Function where
  name : String
  param : Option Expr
  body : List Expr

def Function.display (f : Function) : String :=
  "<function " ++ f.name ++ " " ++ Expr.encodeOption f.param ++ ">"

inductive Value where
  | nil
  | int (n : Int64)
  | float (x : Float)
  | text (s : String)
  | list (e : Expr)
  | function (f : Function)

namespace Value

def type : Value → ValueType
  | nil => .nil
  | int _ => .int
  | float _ => .float
  | text _ => .text
  | list _ => .list
  | function _ => .function

def display : Value → String
  | nil => missingText
  | int n => intText n.toInt
  | float x => floatText x
  | text s => Text.quote s
  | list e => e.encode
  | function f => f.display

/-- Like `display`, but a string stands without its quotes. -/
def raw : Value → String
  | text s => s
  | v => v.display

def ofLiteral : Literal → Value
  | .int n => int n
  | .float x => float x
  | .text s => text s

end Value

end ListLang
