import ListLang.Expr.Printer
import ListLang.Number.Reader

/-! Literals: what an atom means by its text alone. A text that starts like a number has to be one;
any other literal is a string in double quotes. -/

namespace ListLang

inductive Literal where
  | int (n : Int64)
  | float (x : Float)
  | text (s : String)

namespace Literal

def startsNumber : List Char → Bool
  | [] => false
  | c :: _ => c.isDigit || c = '-' || c = '.'

/-- The content of a text that opens and closes with a double quote. -/
def unquote? : List Char → Option (List Char)
  | '"' :: cs => if cs.getLast? = some '"' then some cs.dropLast else none
  | _ => none

def ofChars? (cs : List Char) : Option Literal :=
  if startsNumber cs then
    match readInt? cs with
    | some n => some (.int n)
    | none => (readFloat? cs).map .float
  else (unquote? cs).map fun inner => .text (String.ofList inner)

def ofText? (s : String) : Option Literal := ofChars? s.toList

end Literal

inductive LiteralError where
  /-- A text that is neither a number nor a string. -/
  | malformed (text : String)
  /-- A list, shown by its summary. -/
  | notAtom (summary : String)
  deriving DecidableEq

def LiteralError.message : LiteralError → String
  | .malformed s => "invalid literal: " ++ Text.quote s
  | .notAtom summary => "invalid literal: " ++ summary ++ " is not an atom"

def Expr.literal : Expr → Except LiteralError Literal
  | .atom t =>
    match Literal.ofText? t.text with
    | some l => .ok l
    | none => .error (.malformed t.text)
  | e => .error (.notAtom e.summary)

end ListLang
