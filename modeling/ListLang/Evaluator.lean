import ListLang.Arithmetic
import ListLang.Expr.Reader
import ListLang.Session

/-! Evaluation. An atom stands for its literal. A list is a form that its head decides: arithmetic,
a quotation, a definition, a variable, a call of a definition or a call of a builtin, in this
order. -/

namespace ListLang

def evalAtom (t : Token) : Eval Value :=
  match (Expr.atom t).literal with
  | .ok l => pure (.ofLiteral l)
  | .error cause => Eval.fail (.invalidLiteral cause)

/-- The values of expressions in order. The first error ends it. -/
def evalEach (ev : Expr → Eval Value) : List Expr → Eval (List Value)
  | [] => pure []
  | e :: es => do
    let v ← ev e
    let vs ← evalEach ev es
    pure (v :: vs)

/-- The value of the last expression, or `last` when there is none. -/
def evalBody (ev : Expr → Eval Value) (last : Value) : List Expr → Eval Value
  | [] => pure last
  | e :: es => do
    let v ← ev e
    evalBody ev v es

/-- The operator that a head stands for: its text decides, but only an operator token counts. -/
def operatorOf? (t : Token) : Option Operator :=
  if t.kind.atomKind = .operator then Operator.ofText? t.text else none

def evalArithmetic (ev : Expr → Eval Value) (op : Operator) : List Expr → Eval Value
  | [x, y] => do
    let a ← ev x
    let b ← ev y
    Eval.ofExcept (op.apply a b)
  | args => Eval.fail (.operandCount op args.length)

def evalDefinition (ctx : Context) : List Expr → Eval Value
  | .atom name :: param :: body => do
    let f : Function := ⟨name.text, some param, body⟩
    Eval.define f
    Eval.note ctx .define f
    pure (.function f)
  | .list p es :: _ :: _ => Eval.fail (.nameNotAtom (Expr.list p es).encode)
  | _ => Eval.fail .incompleteDefinition

def evalBuiltin (ctx : Context) (ev : Expr → Eval Value) (args : List Expr) : Builtin → Eval Value
  | .eager apply => do
    let values ← evalEach ev args
    Eval.ofExcept (apply values)
  | .lazy apply => do
    let s ← get
    Eval.ofExcept (apply (ctx.site s) args)

/-- A call binds the parameter without a value and drops the arguments. -/
def evalFunction (ctx : Context) (ev : Expr → Eval Value) (f : Function) : Eval Value := do
  Eval.bind f.param none
  Eval.note ctx .call f
  evalBody ev .nil f.body

def evalCall (ctx : Context) (ev : Expr → Eval Value) (name : String) (args : List Expr) :
    Eval Value := do
  let s ← get
  match s.env.lookup? name with
  | some v => pure v
  | none =>
    match s.env.function? name with
    | some f => evalFunction ctx ev f
    | none =>
      match ctx.builtin? name with
      | some b => evalBuiltin ctx ev args b
      | none => Eval.fail (.unbound name)

def isQuote (name : String) : Bool := name = "quote" || name = "'"

def evalList (ctx : Context) (ev : Expr → Eval Value) (opening : Position) : List Expr → Eval Value
  | [] => pure .nil
  | .list p es :: _ => Eval.fail (.notCallable (Expr.list p es).encode)
  | .atom t :: args =>
    match operatorOf? t with
    | some op => evalArithmetic ev op args
    | none =>
      if isQuote t.text then pure (.list (.list opening (.atom t :: args)))
      else if t.text = "def" then evalDefinition ctx args
      else evalCall ctx ev t.text args

/-- Evaluates an expression whose lists are followed `fuel` levels deep. -/
def eval (ctx : Context) (fuel : Nat) (e : Expr) : Eval Value :=
  match e with
  | .atom t => evalAtom t
  | .list opening items => do
    Eval.enter ctx
    Eval.leaving (match fuel with
      | 0 => throw .exhausted
      | fuel + 1 => do
        let v ← evalList ctx (eval ctx fuel) opening items
        Eval.record ctx (.list opening items) v
        pure v)
termination_by structural fuel

def evalAll (ctx : Context) (es : List Expr) : Eval (List Value) := evalEach (eval ctx ctx.fuel) es

inductive RunError where
  | read (e : ReadError)
  | halt (h : Halt)
  deriving DecidableEq

def RunError.message : RunError → String
  | .read e => e.message
  | .halt (.error e) => e.message
  | .halt .exhausted => "evaluation given up"

structure Outcome where
  result : Except RunError (List Value)
  session : Session

/-- Reads a text and evaluates all of it, going on from a session. A text that cannot be read
changes nothing. -/
def runIn (ctx : Context) (s : Session) (text : List Char) : Outcome :=
  match read text with
  | .error e => ⟨.error (.read e), s⟩
  | .ok es =>
    match evalAll ctx es s with
    | .ok vs s => ⟨.ok vs, s⟩
    | .error h s => ⟨.error (.halt h), s⟩

def run (ctx : Context) (text : List Char) : Outcome := runIn ctx .start text

end ListLang
