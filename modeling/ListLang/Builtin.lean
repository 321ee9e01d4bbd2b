import ListLang.EvalError

/-! Builtins: functions of the language that are not written in it. They compute a value from their
arguments and cannot reach the environment. -/

namespace ListLang

/-- The place of an evaluation, as it is shown in messages. -/
structure Site where
  id : String
  /-- Names the evaluator within the process. -/
  handle : String
  depth : Nat

def Site.display (s : Site) : String :=
  "[" ++ s.id ++ "]: depth " ++ natText s.depth ++ " (" ++ s.handle ++ ")"

/-- A builtin evaluates all of its arguments or none. One that evaluates some of them, looks between
two of them, keeps a state of its own or changes the session is not among these. -/
inductive Builtin where
  /-- Evaluates all arguments, from left to right, before it is applied. -/
  | eager (apply : List Value → Except EvalError Value)
  /-- Takes its arguments as they are written. -/
  | lazy (apply : Site → List Expr → Except EvalError Value)

namespace Builtin

def splitPlaceholder? : List Char → Option (List Char × List Char)
  | [] => none
  | '\x7b' :: '\x7d' :: rest => some ([], rest)
  | c :: rest => (splitPlaceholder? rest).map fun (before, after) => (c :: before, after)

/-- Fills the placeholders of a template from the left. Arguments that are left over follow at the
end, each after a space. -/
def fill (template : List Char) : List (List Char) → List Char
  | [] => template
  | arg :: args =>
    match splitPlaceholder? template with
    | some (before, after) => before ++ arg ++ fill after args
    | none => template ++ (arg :: args).flatMap (' ' :: ·)

def format : Builtin := .eager fun
  | [] => .error .missingTemplate
  | .text template :: args =>
    .ok (.text (String.ofList (fill template.toList (args.map fun v => v.raw.toList))))
  | v :: _ => .error (.templateNotText v.type)

def count : Builtin := .lazy fun _ args => .ok (.int (Int64.ofInt args.length))

def last : Builtin := .eager fun values => .ok (values.getLast?.getD .nil)

def source : Builtin := .lazy fun _ args => .ok (.text (Expr.encodeAll args))

def place : Builtin := .lazy fun site _ => .ok (.text site.display)

def failing (reason : String) : Builtin := .lazy fun _ _ => .error (.builtin reason)

def defaults : List (String × Builtin) := [("format", format)]

end Builtin

end ListLang
