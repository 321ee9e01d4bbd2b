import ListLang.Number.Decimal
import ListLang.Text.Quoted

/-! Tokens: the lexical units of a source text, each with its kind, its characters and the place
where it starts. -/

namespace ListLang

/-- A place in a source text. Lines and columns count from 1. -/
structure Position where
  line : Int
  column : Int
  deriving DecidableEq

inductive TokenKind where
  | invalid
  | openList
  | closeList
  | plus
  | minus
  | star
  | slash
  | percent
  | quote
  | doubleQuote
  | separator
  | newline
  | word
  | numeric
  | text
  | endOfText
  deriving DecidableEq

namespace TokenKind

/-- All kinds in the order of their codes, which count from 0. -/
def all : List TokenKind :=
  [invalid, openList, closeList, plus, minus, star, slash, percent, quote, doubleQuote, separator,
    newline, word, numeric, text, endOfText]

/-- A code that no kind has counts as invalid. -/
def ofCode (code : Nat) : TokenKind := all[code]?.getD invalid

def name : TokenKind → String
  | invalid => "invalid"
  | openList => "open_expression"
  | closeList => "close_expression"
  | plus => "plus"
  | minus => "minus"
  | star => "star"
  | slash => "slash"
  | percent => "percent"
  | quote => "quote"
  | doubleQuote => "double_quote"
  | separator => "separator"
  | newline => "newline"
  | word => "word"
  | numeric => "numeric"
  | text => "string"
  | endOfText => "EOF"

def ofName? (name : String) : Option TokenKind := all.find? (·.name = name)

def isOperator : TokenKind → Bool
  | plus | minus | star | slash | percent => true
  | _ => false

end TokenKind

structure Token where
  kind : TokenKind
  text : String
  pos : Position
  deriving DecidableEq

def Token.display (t : Token) : String :=
  "(:" ++ t.kind.name ++ " " ++ Text.quote t.text ++
    " [" ++ intText t.pos.line ++ " " ++ intText t.pos.column ++ "])"

end ListLang
