import ListLang.Value

/-! A cell is a value seen from outside: a type code and a content that need not be of that type, or
be there at all. Every question about the content may have no answer. -/

namespace ListLang

structure Cell where
  code : Nat
  content : Option Value

namespace Cell

/-- Nil has no content. -/
def ofValue : Value → Cell
  | .nil => ⟨ValueType.nil.code, none⟩
  | v => ⟨v.type.code, some v⟩

def blank (code : Nat) : Cell := ⟨code, none⟩

def typeName (c : Cell) : String := ((ValueType.ofCode? c.code).map ValueType.name).getD ""

def isNil (c : Cell) : Bool := c.code = ValueType.nil.code

def isNumeric (c : Cell) : Bool := c.code = ValueType.int.code || c.code = ValueType.float.code

def int? (c : Cell) : Option Int64 :=
  match c.content with
  | some (.int n) => some n
  | _ => none

/-- The code decides what the content has to be. An integer counts as the nearest double. -/
def float? (c : Cell) : Option Float :=
  if c.code = ValueType.int.code then c.int?.map fun n => Binary64.ofInt n.toInt
  else match c.content with
    | some (.float x) => some x
    | _ => none

def text? (c : Cell) : Option String :=
  match c.content with
  | some (.text s) => some s
  | _ => none

def list? (c : Cell) : Option Expr :=
  match c.content with
  | some (.list e) => some e
  | _ => none

def function? (c : Cell) : Option Function :=
  match c.content with
  | some (.function f) => some f
  | _ => none

/-- A cell shows as its code says, if the content is of that type. Without a type it shows as what
it holds. -/
def display? (c : Cell) : Option String :=
  match ValueType.ofCode? c.code with
  | some .nil => some Value.nil.display
  | some .int => c.int?.map fun n => (Value.int n).display
  | some .float =>
    match c.content with
    | some (.float x) => some (Value.float x).display
    | _ => none
  | some .text => c.text?.map fun s => (Value.text s).display
  | some .list => c.list?.map fun e => (Value.list e).display
  | some .function => c.function?.map fun f => (Value.function f).display
  | none => some (c.content.elim "<nil>" Value.display)

/-- Like `display?`, but a string stands without its quotes. -/
def raw? (c : Cell) : Option String := if c.code = ValueType.text.code then c.text? else c.display?

end Cell

end ListLang
