import ListLang.Token

/-! Expressions: atoms, which are single tokens, and lists. An expression keeps where it was read,
but two expressions are the same when shape and atom texts agree. -/

namespace ListLang

/-- What an expression is, told from its token alone. -/
inductive ExprKind where
  | symbol
  | operator
  | numeric
  | text
  | expression
  deriving DecidableEq

namespace ExprKind

def name : ExprKind → String
  | symbol => "symbol"
  | operator => "operator"
  | numeric => "numeric"
  | text => "string"
  | expression => "expression"

/-- Atoms have bit 7 set and lists bit 8. -/
def code : ExprKind → Nat
  | symbol => 128 + 1
  | operator => 128 + 2
  | numeric => 128 + 4
  | text => 128 + 8
  | expression => 256 + 1

def all : List ExprKind := [symbol, operator, numeric, text, expression]

def ofCode? (code : Nat) : Option ExprKind := all.find? (·.code = code)

end ExprKind

def TokenKind.atomKind (k : TokenKind) : ExprKind :=
  match k with
  | .numeric => .numeric
  | .text => .text
  | .quote => .operator
  | k => if k.isOperator then .operator else .symbol

inductive Expr where
  | atom (token : Token)
  | list (opening : Position) (items : List Expr)

namespace Expr

def kind : Expr → ExprKind
  | atom t => t.kind.atomKind
  | list _ _ => .expression

/-- A list has no text of its own. -/
def text : Expr → String
  | atom t => t.text
  | list _ _ => ""

def pos : Expr → Position
  | atom t => t.pos
  | list p _ => p

def items : Expr → List Expr
  | atom _ => []
  | list _ es => es

def isNamed (e : Expr) (name : String) : Bool :=
  match e with
  | atom t => t.text = name
  | list _ _ => false

/-- The token of an atom, or the one that opens a list. -/
def token : Expr → Token
  | atom t => t
  | list p _ => ⟨.openList, "(", p⟩

def summary : Expr → String
  | atom t => "(" ++ t.kind.atomKind.name ++ "): " ++ t.text
  | list _ es => "(" ++ ExprKind.expression.name ++ ")[" ++ natText es.length ++ "]"

mutual

/-- Same shape and same atom texts. -/
def same : Expr → Expr → Bool
  | atom a, atom b => a.text = b.text
  | list _ as, list _ bs => sameAll as bs
  | _, _ => false

def sameAll : List Expr → List Expr → Bool
  | [], [] => true
  | a :: as, b :: bs => same a b && sameAll as bs
  | _, _ => false

end

end Expr

end ListLang
