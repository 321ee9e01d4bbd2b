import ListLang.Environment
import ListLang.Journal
import ListLang.Trace

/-! Sessions: the state of an evaluator between and during evaluations, and the computations that
act on it. The state outlives an error. -/

namespace ListLang

structure Session where
  env : Environment
  /-- How many lists are being evaluated. -/
  depth : Nat
  trace : Array TraceRecord
  journal : Array JournalEntry

def Session.start : Session := ⟨.empty, 0, #[], #[]⟩

/-- What stays fixed while a session runs. -/
structure Context where
  id : String
  handle : String
  /-- How many lists may be evaluated within one another; 0 means any number. -/
  limit : Nat
  tracer : Option Tracer
  journaling : Bool
  builtins : List (String × Builtin)
  /-- How deep an evaluation without a limit is followed before it is given up. -/
  patience : Nat

def defaultLimit : Nat := 1000

def Context.plain (id handle : String) : Context where
  id := id
  handle := handle
  limit := defaultLimit
  tracer := none
  journaling := false
  builtins := Builtin.defaults
  patience := 1000000

def Context.withBuiltin (ctx : Context) (name : String) (b : Builtin) : Context :=
  { ctx with builtins := (name, b) :: ctx.builtins }

def Context.builtin? (ctx : Context) (name : String) : Option Builtin := ctx.builtins.lookup name

def Context.fuel (ctx : Context) : Nat := if ctx.limit = 0 then ctx.patience else ctx.limit

def Context.site (ctx : Context) (s : Session) : Site := ⟨ctx.id, ctx.handle, s.depth⟩

inductive Halt where
  | error (e : EvalError)
  /-- Given up: the evaluation has no limit and went too deep to be followed. -/
  | exhausted
  deriving DecidableEq

abbrev Eval := EStateM Halt Session

namespace Eval

def fail {α : Type} (e : EvalError) : Eval α := throw (.error e)

def ofExcept {α : Type} : Except EvalError α → Eval α
  | .ok a => pure a
  | .error e => fail e

/-- Begins a list, if the limit allows one more. -/
def enter (ctx : Context) : Eval Unit := fun s =>
  if ctx.limit ≠ 0 && ctx.limit ≤ s.depth then .error (.error (.tooDeep ctx.limit)) s
  else .ok () { s with depth := s.depth + 1 }

/-- Ends a list after `body`, however that ends. -/
def leaving {α : Type} (body : Eval α) : Eval α := fun s =>
  match body s with
  | .ok a s => .ok a { s with depth := s.depth - 1 }
  | .error e s => .error e { s with depth := s.depth - 1 }

def record (ctx : Context) (e : Expr) (v : Value) : Eval Unit := fun s =>
  match ctx.tracer with
  | none => .ok () s
  | some t =>
    if t.hasRoom s.trace.size then .ok () { s with trace := s.trace.push (.of e v) }
    else .error (.error .sinkFull) s

def note (ctx : Context) (event : JournalEvent) (f : Function) : Eval Unit := fun s =>
  if ctx.journaling then .ok () { s with journal := s.journal.push ⟨s.depth, event, f.display⟩ }
  else .ok () s

def define (f : Function) : Eval Unit := fun s => .ok () { s with env := s.env.define f }

def bind (param : Option Expr) (value : Option Value) : Eval Unit := fun s =>
  .ok () { s with env := s.env.bind param value }

end Eval

end ListLang
