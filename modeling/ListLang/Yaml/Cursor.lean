import ListLang.Yaml.Fault

/-! A place in a YAML text, and the moves that reading makes from it. -/

namespace ListLang.Yaml

/-! Characters -/

def isBlank (c : Char) : Bool := c = ' ' || c = '\t'

def isBreak (c : Char) : Bool := [0x0A, 0x0D, 0x85, 0x2028, 0x2029].contains c.toNat

def isGap (c : Char) : Bool := isBlank c || isBreak c

def startsGap (cs : List Char) : Bool := (cs.head?.map isGap).getD true

def startsBreak (cs : List Char) : Bool := (cs.head?.map isBreak).getD true

def startsWith (c : Char) (cs : List Char) : Bool := cs.head? = some c

def isNameChar (c : Char) : Bool := c.isAlphanum || c = '_' || c = '-'

def openBrace : Char := '\x7b'

def closeBrace : Char := '\x7d'

/-- Whether a line starts with `---` or `...`, here as the character that is repeated. -/
def startsMark (c : Char) (cs : List Char) : Bool := cs.take 3 = [c, c, c] && startsGap (cs.drop 3)

def startsDocumentMark (cs : List Char) : Bool := startsMark '-' cs || startsMark '.' cs

def isAllowed (c : Char) : Bool :=
  let n := c.toNat
  n = 0x09 || n = 0x0A || n = 0x0D || (0x20 ≤ n && n ≤ 0x7E) || n = 0x85 ||
    (0xA0 ≤ n && n ≠ 0xFFFE && n ≠ 0xFFFF)

/-! Blocks -/

def blockSize : Nat := 512

structure Block where
  size : Nat
  isTorn : Bool

/-- The blocks of a text up to a character that is not allowed. A block holds whole characters;
`size` is how many of them the first one has already and `room` how many bytes it still takes. -/
def Block.ofText (room size : Nat) : List Char → List Block
  | [] => if size = 0 then [] else [⟨size, false⟩]
  | c :: cs =>
    let isNext := room < c.utf8Size
    let done := if isNext then [Block.mk size false] else []
    let size := if isNext then 0 else size
    if isAllowed c then
      done ++ Block.ofText ((if isNext then blockSize else room) - c.utf8Size) (size + 1) cs
    else done ++ [⟨size, true⟩]

/-- Looks through blocks until `n` characters are known; so far `known` are. The end of the text is
known as one more character every time it is met. The last component is false when a character that
is not allowed comes in between, which it then always does. -/
def Block.look (n known : Nat) : List Block → Nat × List Block × Bool
  | [] => (known + 1, [], true)
  | b :: bs =>
    if b.isTorn then (known + b.size, [⟨0, true⟩], false)
    else if n ≤ known + b.size then (known + b.size, bs, true)
    else Block.look n (known + b.size) bs

/-! Places -/

/-- A place in a text; lines and columns are counted from zero. -/
structure Position where
  index : Nat
  line : Nat
  column : Nat

structure Cursor where
  /-- The text from here on, up to a character that is not allowed. -/
  rest : List Char
  position : Position
  /-- Whether nothing but blanks was passed since the last line break. -/
  onFreshLine : Bool
  /-- How many characters from here on were looked through. -/
  known : Nat
  blocks : List Block
  /-- Whether a byte order mark stood here when blocks were last looked through. -/
  wasAtMark : Bool
  /-- Whether a character that is not allowed was met while looking for a comment. -/
  isSpoilt : Bool

namespace Cursor

/-- The start of a text. A byte order mark before it counts as part of the first block. -/
def ofText (text : List Char) : Cursor :=
  let isMarked := startsWith '\ufeff' text
  let text := if isMarked then text.drop 1 else text
  let blocks := Block.ofText (if isMarked then blockSize - 3 else blockSize) 0 text
  ⟨text.takeWhile isAllowed, ⟨0, 0, 0⟩, false, 0, blocks, false, false⟩

def look (n : Nat) (c : Cursor) : Bool × Cursor :=
  if n ≤ c.known then (true, c)
  else
    let (known, blocks, found) := Block.look n c.known c.blocks
    (found, { c with known := known, blocks := blocks, wasAtMark := startsWith '\ufeff' c.rest })

def pass (c : Cursor) (n : Nat) : Cursor :=
  { c with
    rest := c.rest.drop n
    position := { c.position with index := c.position.index + n, column := c.position.column + n }
    onFreshLine := c.onFreshLine && (c.rest.take n).all isBlank
    known := c.known - n }

/-- Passes a line break, which may be two characters. It stands for a line feed unless it is one of
the two separators. -/
def passBreak (c : Cursor) : List Char × Cursor :=
  let after (n : Nat) : Cursor :=
    { c with
      rest := c.rest.drop n
      position := ⟨c.position.index + n, c.position.line + 1, 0⟩
      onFreshLine := true
      known := c.known - n }
  match c.rest with
  | '\r' :: '\n' :: _ => (['\n'], after 2)
  | b :: _ =>
    if b.toNat = 0x2028 || b.toNat = 0x2029 then ([b], after 1)
    else if isBreak b then (['\n'], after 1)
    else ([], c)
  | [] => ([], c)

end Cursor

/-! Reading -/

abbrev Scan := StateT Cursor (Except Problem)

namespace Scan

def rest : Scan (List Char) := return (← get).rest

def position : Scan Position := return (← get).position

def fail {α : Type} (began : Position) (fault : Fault) : Scan α := do
  throw ⟨fault, true, began.line, (← position).line⟩

def need (n : Nat) : Scan Unit := do
  if !(← modifyGet (Cursor.look n)) then throw (.plain .controlCharacter)

def skip (n : Nat) : Scan Unit := modify fun c => c.pass n

def spanUpTo (limit : Nat) (p : Char → Bool) : Scan (List Char) := do
  need 1
  match limit, ← rest with
  | limit + 1, c :: _ =>
    if p c then
      skip 1
      return c :: (← spanUpTo limit p)
    else return []
  | _, _ => return []

def span (p : Char → Bool) : Scan (List Char) := do spanUpTo ((← rest).takeWhile p).length p

def skipLine : Scan Unit := do
  let _ ← span fun c => !isBreak c

def skipBreak : Scan (List Char) := do
  need 2
  modifyGet Cursor.passBreak

def endLine (began : Position) : Scan Unit := do
  let _ ← span isBlank
  if startsWith '#' (← rest) then skipLine
  match ← rest with
  | [] => return
  | c :: _ =>
    if !isBreak c then fail began .lineNotEnded
    let _ ← skipBreak

/-- A byte order mark may start a line. What counts is the character at which blocks were last
looked through: if that was a mark, the first character of each line is passed until more blocks are
needed. -/
def skipMark : Scan Unit := do
  need 1
  let c ← get
  if c.position.column = 0 && c.wasAtMark then skip 1

end Scan

end ListLang.Yaml
