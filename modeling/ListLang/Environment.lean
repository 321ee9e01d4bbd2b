import ListLang.Value

/-! Environments: the definitions and bindings of one run. Both only grow, and of several entries
for a name the first one counts. -/

namespace ListLang

/-- A variable. Its name is the parameter as it was written, so only an atom can ever be looked
up. -/
structure Binding where
  param : Option Expr
  /-- None until it is initialised. -/
  value : Option Value

def Binding.isFor (b : Binding) (name : String) : Bool :=
  match b.param with
  | some e => e.isNamed name
  | none => false

structure Environment where
  functions : Array Function
  bindings : Array Binding

namespace Environment

def empty : Environment := ⟨#[], #[]⟩

def define (env : Environment) (f : Function) : Environment :=
  { env with functions := env.functions.push f }

def bind (env : Environment) (param : Option Expr) (value : Option Value) : Environment :=
  { env with bindings := env.bindings.push ⟨param, value⟩ }

/-- The value of a variable; nil when it is not initialised. -/
def lookup? (env : Environment) (name : String) : Option Value :=
  (env.bindings.find? (·.isFor name)).map fun b => b.value.getD .nil

def function? (env : Environment) (name : String) : Option Function :=
  env.functions.find? (·.name = name)

end Environment

end ListLang
