import ListLang.Expr.Printer
import ListLang.Lexer.Scan
import ListLang.Text.Decode

/-! From tokens to expressions. The reader keeps the lists that are still open, the innermost first,
each with the expressions that stand before it. -/

namespace ListLang

/-- An open list: where it opens, and the expressions before it, the last one first. -/
structure Frame where
  opening : Position
  before : List Expr

def TokenKind.isAtom : TokenKind → Bool
  | .plus | .minus | .star | .slash | .percent | .quote | .word | .numeric | .text => true
  | _ => false

def finish (opened : List Frame) (done : List Expr) : Except ReadError (List Expr) :=
  match opened with
  | [] => .ok done.reverse
  | f :: _ => .error (.unclosedList f.opening)

/-- Reads on with the lists `opened` and, in the innermost of them, the expressions `done`, the last
one first. -/
def build (opened : List Frame) (done : List Expr) : List Token → Except ReadError (List Expr)
  | [] => finish opened done
  | t :: ts =>
    if t.kind = .endOfText then finish opened done
    else if t.kind = .openList then build (⟨t.pos, done⟩ :: opened) [] ts
    else if t.kind = .closeList then
      match opened with
      | [] => .error (.strayClose t.pos)
      | f :: opened => build opened (.list f.opening done.reverse :: f.before) ts
    else if t.kind.isAtom then build opened (.atom t :: done) ts
    else .error (.unexpectedToken t.pos)

def forest (ts : List Token) : Except ReadError (List Expr) := build [] [] ts

def read (text : List Char) : Except ReadError (List Expr) :=
  match tokenize text with
  | .error e => .error e
  | .ok ts => forest ts

def readString (text : String) : Except ReadError (List Expr) := read text.toList

def readBytes (bytes : List UInt8) : Except ReadError (List Expr) := read (Text.decode bytes)

/-- A parser that can be run again. It takes its text once; later runs find nothing more to read. -/
structure Parser where
  text : List Char
  obstacle : Option String
  tokens : List Token
  offset : Nat
  expressions : List Expr
  failure : Option ReadError

namespace Parser

def ofText (text : List Char) : Parser := ⟨text, none, [], 0, [], none⟩

/-- The expressions outside all open lists, the last one first. -/
def outermost (done : List Expr) : List Frame → List Expr
  | [] => done
  | f :: opened => outermost f.before opened

/-- What was read before an error is still there. -/
def fail (p : Parser) (opened : List Frame) (done : List Expr) (e : ReadError) : Parser :=
  { p with expressions := (outermost done opened).reverse, failure := some e }

def finish (p : Parser) (opened : List Frame) (done : List Expr) : Parser :=
  match opened with
  | [] => { p with expressions := done.reverse }
  | f :: _ => p.fail opened done (.unclosedList f.opening)

/-- Takes the tokens that are left, one by one. The lists `opened` are still open, and in the
innermost of them are the expressions `done`, the last one first. -/
def readOn (p : Parser) (opened : List Frame) (done : List Expr) : List Token → Parser
  | [] => p.finish opened done
  | t :: ts =>
    let p := { p with offset := p.offset + 1 }
    if t.kind = .endOfText then p.finish opened done
    else if t.kind = .openList then p.readOn (⟨t.pos, done⟩ :: opened) [] ts
    else if t.kind = .closeList then
      match opened with
      | [] => p.fail [] done (.strayClose t.pos)
      | f :: opened => p.readOn opened (.list f.opening done.reverse :: f.before) ts
    else if t.kind.isAtom then p.readOn opened (.atom t :: done) ts
    else p.fail opened done (.unexpectedToken t.pos)

/-- An error leaves no expressions. -/
def conclude (p : Parser) : Except ReadError Unit × Parser :=
  match p.failure with
  | some e => (.error e, { p with expressions := [] })
  | none => (.ok (), p)

/-- An error in the parentheses stays; an error in the characters is forgotten with the text. The
tokens of an earlier run are not taken again. -/
def parse (p : Parser) : Except ReadError Unit × Parser :=
  match p.obstacle with
  | some reason => (.error (.unreadable reason), p)
  | none =>
    let scanned := (Lexer.ofText p.text).scan
    match scanned.1 with
    | .error e => (.error e, { p with text := [] })
    | .ok () =>
      let tokens := scanned.2.tokens.getD []
      (readOn { p with text := [], tokens } [] p.expressions.reverse
        (tokens.drop p.offset)).conclude

end Parser

end ListLang
