import ListLang.Literal

/-! Trees built by hand. The nodes of an arena are numbered as they are made; a node may be pushed
into several lists, and it knows the last one as its parent. -/

namespace ListLang

structure ArenaNode where
  kind : ExprKind
  /-- A list may have no token. -/
  token : Option Token
  /-- None is a child that was missing when it was pushed. -/
  children : Array (Option Nat)
  parent : Option Nat

namespace ArenaNode

def atom (t : Token) : ArenaNode := ⟨t.kind.atomKind, some t, #[], none⟩

def list (t : Option Token) : ArenaNode := ⟨.expression, t, #[], none⟩

def isList (n : ArenaNode) : Bool := n.kind = .expression

def text (n : ArenaNode) : String :=
  if n.isList then "" else (n.token.map Token.text).getD ""

def summary (n : ArenaNode) : String :=
  if n.isList then "(" ++ n.kind.name ++ ")[" ++ natText n.children.size ++ "]"
  else "(" ++ n.kind.name ++ "): " ++ n.text

def isNamed (n : ArenaNode) (name : String) : Bool := !n.isList && n.text = name

def literal (n : ArenaNode) : Except LiteralError Literal :=
  if n.isList then .error (.notAtom n.summary)
  else match Literal.ofText? n.text with
    | some l => .ok l
    | none => .error (.malformed n.text)

def tokenText (n : ArenaNode) : String := (n.token.map Token.display).getD "<nil>"

end ArenaNode

structure Arena where
  nodes : Array ArenaNode

inductive ArenaError where
  /-- Only lists have children. -/
  | notList
  | missing
  deriving DecidableEq

def ArenaError.message : ArenaError → String
  | .notList => "nodes of type value can't accept children"
  | .missing => "missing node"

namespace Arena

def empty : Arena := ⟨#[]⟩

def size (a : Arena) : Nat := a.nodes.size

def add (a : Arena) (n : ArenaNode) : Nat × Arena := (a.size, ⟨a.nodes.push n⟩)

def appendChild (a : Arena) (i : Nat) (child : Option Nat) : Arena :=
  ⟨a.nodes.modify i fun n => { n with children := n.children.push child }⟩

def setParent (a : Arena) (child i : Nat) : Arena :=
  ⟨a.nodes.modify child fun n => { n with parent := some i }⟩

/-- Appends a child to a list. A missing child is appended too, and then reported. -/
def push (a : Arena) (i : Nat) (child : Option Nat) : Except ArenaError Unit × Arena :=
  match a.nodes[i]? with
  | none => (.error .missing, a)
  | some n =>
    if !n.isList then (.error .notList, a)
    else match child with
      | none => (.error .missing, a.appendChild i none)
      | some c => (.ok (), (a.appendChild i (some c)).setParent c i)

/-- Makes a node and pushes it. If it cannot be pushed it is not made. -/
def pushNew (a : Arena) (i : Nat) (n : ArenaNode) : Except ArenaError Nat × Arena :=
  let (c, b) := a.add n
  match b.push i (some c) with
  | (.ok (), b) => (.ok c, b)
  | (.error e, _) => (.error e, a)

/-- The encoded text of a node, its lists followed `fuel` levels deep. -/
def encodeFrom (a : Arena) : Nat → Option Nat → String
  | 0, _ => missingText
  | fuel + 1, i =>
    match i.bind (a.nodes[·]?) with
    | none => missingText
    | some n =>
      if n.isList then
        "(" ++ String.intercalate " " (n.children.toList.map (encodeFrom a fuel)) ++ ")"
      else n.text

/-- The outline of a node, its lists followed `fuel` levels deep. -/
def outlineFrom (a : Arena) : Nat → Nat → Option Nat → String
  | 0, _, _ => missingText ++ "\n"
  | fuel + 1, level, i =>
    match i.bind (a.nodes[·]?) with
    | none => missingText ++ "\n"
    | some n =>
      if n.isList then
        Expr.listLine level n.tokenText ++
          String.join (n.children.toList.map (outlineFrom a fuel (level + 1)))
      else
        Expr.indent level ++ "(" ++ n.kind.name ++ "): " ++ n.text ++ " (" ++ n.tokenText ++ ")\n"

/-- Same shape and same atom texts, compared `fuel` levels deep. Missing nodes equal each other
only. -/
def sameFrom (a : Arena) : Nat → Option Nat → Option Nat → Bool
  | 0, _, _ => false
  | fuel + 1, i, j =>
    match i.bind (a.nodes[·]?), j.bind (a.nodes[·]?) with
    | none, none => true
    | some m, some n =>
      if m.isList && n.isList then
        m.children.size = n.children.size &&
          ((m.children.toList.zip n.children.toList).all fun (x, y) => sameFrom a fuel x y)
      else m.isList = n.isList && m.text = n.text
    | _, _ => false

-- A tree without cycles is no deeper than the number of its nodes.

def encode (a : Arena) (i : Option Nat) : String := a.encodeFrom (a.size + 1) i

def encodeAll (a : Arena) (is : List (Option Nat)) : String :=
  String.intercalate " " (is.map a.encode)

def outline (a : Arena) (i : Option Nat) : String := a.outlineFrom (a.size + 1) 0 i

def same (a : Arena) (i j : Option Nat) : Bool := a.sameFrom (a.size + 1) i j

end Arena

end ListLang
