import ListLang.Token

/-! Why a source text cannot be read. -/

namespace ListLang

inductive ReadError where
  | unreadable (reason : String)
  | unterminatedText (pos : Position)
  /-- Characters that belong to no token, each as a token of its own. -/
  | invalidContent (tokens : List Token)
  /-- A list that is opened here is never closed. -/
  | unclosedList (pos : Position)
  | strayClose (pos : Position)
  /-- A token that cannot be part of an expression. -/
  | unexpectedToken (pos : Position)
  deriving DecidableEq

def Position.parenthesized (p : Position) : String :=
  "(line " ++ intText p.line ++ ", column " ++ intText p.column ++ ")"

def ReadError.message : ReadError → String
  | .unreadable reason => reason
  | .unterminatedText p =>
    "unterminated string: opened at line " ++ intText p.line ++ ", column " ++ intText p.column
  | .invalidContent ts =>
    "syntax error: found invalid content [" ++
      String.intercalate ", " (ts.map fun t => Text.quote t.text) ++ "]"
  | .unclosedList p => "must close with ) " ++ p.parenthesized
  | .strayClose p => "unexpected ) " ++ p.parenthesized
  | .unexpectedToken p => "unexpected token " ++ p.parenthesized

end ListLang
