import ListLang.Expr

/-! Two ways to print expressions: encoded, which can be read back, and as an outline with one line
for each atom and each list. -/

namespace ListLang

def missingText : String := ":nil"

namespace Expr

mutual

def encode : Expr → String
  | atom t => t.text
  | list _ es => "(" ++ encodeAll es ++ ")"

/-- Expressions side by side, with a space between. -/
def encodeAll : List Expr → String
  | [] => ""
  | [e] => encode e
  | e :: es => encode e ++ " " ++ encodeAll es

end

def encodeOption : Option Expr → String
  | none => missingText
  | some e => encode e

def indent (level : Nat) : String := String.ofList (List.replicate (4 * level) ' ')

def atomLine (level : Nat) (t : Token) : String :=
  indent level ++ "(" ++ t.kind.atomKind.name ++ "): " ++ t.text ++ " (" ++ t.display ++ ")\n"

/-- The line of a list, which shows its opening token. -/
def listLine (level : Nat) (opening : String) : String :=
  indent level ++ "(" ++ ExprKind.expression.name ++ "): (" ++ opening ++ ")\n"

mutual

def outlineAt (level : Nat) : Expr → String
  | atom t => atomLine level t
  | list p es => listLine level (Expr.token (list p es)).display ++ outlineAllAt (level + 1) es

def outlineAllAt (level : Nat) : List Expr → String
  | [] => ""
  | e :: es => outlineAt level e ++ outlineAllAt level es

end

def outline (e : Expr) : String := outlineAt 0 e

end Expr

end ListLang
