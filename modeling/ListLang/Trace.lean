import ListLang.Value

/-! Traces: one record for each list that was evaluated, written where it ends. -/

namespace ListLang

structure TraceRecord where
  expression : String
  value : String
  type : ValueType
  deriving DecidableEq

def TraceRecord.of (e : Expr) (v : Value) : TraceRecord := ⟨e.encode, v.display, v.type⟩

inductive TraceFormat where
  | text
  | yaml
  deriving DecidableEq

/-- Takes records in a format. A sink with a capacity refuses every record beyond it; one that
refuses a record and takes a later one is not among these. -/
structure Tracer where
  format : TraceFormat
  capacity : Option Nat

def Tracer.hasRoom (t : Tracer) (written : Nat) : Bool :=
  match t.capacity with
  | none => true
  | some n => written < n

def TraceRecord.line (r : TraceRecord) : String :=
  "== Evaluate S-expression " ++ r.expression ++ " that produces " ++ r.value ++
    "(" ++ r.type.name ++ ")\n"

end ListLang
