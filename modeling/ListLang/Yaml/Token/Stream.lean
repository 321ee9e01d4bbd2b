import ListLang.Yaml.Token.Comment
import ListLang.Yaml.Token.Property

/-! The tokens of a YAML text one after the other. That a scalar, a reference or a collection in
flow style is a key shows only at the colon after it; the tokens that mark a key are then put in
before it. So tokens are held back until it is known, and never fewer than three are looked at. -/

namespace ListLang.Yaml

structure PendingKey where
  /-- Nothing else can stand here. -/
  isRequired : Bool
  number : Nat
  position : Position

/-- One for each level of flow style. The number and the place are those of the last pending key, or
of the token that opened the level. -/
structure KeySlot where
  number : Nat
  position : Position
  key : Option PendingKey

structure TokenStream where
  cursor : Cursor
  isStarted : Bool
  queue : List Token
  taken : Nat
  /-- The column of the innermost block, and of the blocks around it; -1 outside all blocks. -/
  indent : Int
  indents : List Int
  isKeyAllowed : Bool
  slot : KeySlot
  outerSlots : List KeySlot
  held : List Nat

def TokenStream.ofText (text : List Char) : TokenStream :=
  ⟨.ofText text, false, [], 0, -1, [], true, ⟨0, ⟨0, 0, 0⟩, none⟩, [], []⟩

abbrev Tokens := StateT TokenStream (Except Problem)

namespace Tokens

def scan {α : Type} (x : Scan α) : Tokens α := do
  let (a, c) ← x.run (← get).cursor
  modify fun s => { s with cursor := c }
  return a

def position : Tokens Position := return (← get).cursor.position

def inFlow : Tokens Bool := return !(← get).outerSlots.isEmpty

def add (kind : TokenKind) (start : Position) : Tokens Unit :=
  modify fun s => { s with queue := s.queue ++ [⟨kind, start⟩] }

/-- Puts a token before the one with the given number, or last when that one was taken. -/
def insertAt (number : Nat) (kind : TokenKind) (start : Position) : Tokens Unit := do
  let s ← get
  if number < s.taken then add kind start
  else set { s with queue := s.queue.insertIdx (number - s.taken) ⟨kind, start⟩ }

/-! Keys -/

/-- A key ends on its line, within 1024 characters. -/
def isOver (k : PendingKey) (p : Position) : Bool :=
  k.position.line < p.line || k.position.index + 1024 < p.index

def missingColon {α : Type} (k : PendingKey) : Tokens α := scan (.fail k.position .keyWithoutColon)

def dropKey : Tokens Unit := do
  let s ← get
  match s.slot.key with
  | none => return
  | some k =>
    if k.isRequired then missingColon k
    set { s with slot := { s.slot with key := none }, held := s.held.filter (· ≠ k.number) }

def noteKey : Tokens Unit := do
  let s ← get
  if s.isKeyAllowed then
    let number := s.taken + s.queue.length
    let isRequired := s.outerSlots.isEmpty && s.indent = s.cursor.position.column
    dropKey
    modify fun t => { t with
      slot := ⟨number, s.cursor.position, some ⟨isRequired, number, s.cursor.position⟩⟩
      held := number :: t.held }

def currentKey? : Tokens (Option PendingKey) := do
  let s ← get
  match s.slot.key with
  | none => return none
  | some k =>
    if !isOver k s.cursor.position then return some k
    else if k.isRequired then missingColon k
    else
      set { s with slot := { s.slot with key := none } }
      return none

def isHeld : Tokens Bool := do
  let s ← get
  if !s.held.contains s.taken then return false
  match ((s.slot :: s.outerSlots).filterMap KeySlot.key).find? fun k => k.number = s.taken with
  | none => return false
  | some k =>
    if !isOver k s.cursor.position then return true
    else if k.isRequired then missingColon k
    else return false

def allowKey (b : Bool) : Tokens Unit := modify fun s => { s with isKeyAllowed := b }

/-! Blocks and levels -/

def depthLimit : Nat := 10000

def tooDeep {α : Type} : Tokens α := do scan (.fail (← get).slot.position .tooDeep)

def openBlock (column : Nat) (kind : TokenKind) (start : Position) (number : Option Nat) :
    Tokens Unit := do
  let s ← get
  if s.outerSlots.isEmpty && s.indent < column then
    set { s with indent := column, indents := s.indent :: s.indents }
    if depthLimit ≤ s.indents.length then tooDeep
    match number with
    | none => add kind start
    | some n => insertAt n kind start

/-- The blocks that a column is left of end there. -/
def closeBlocks (column : Int) : Tokens Unit := do
  let s ← get
  if s.outerSlots.isEmpty then
    let all := s.indent :: s.indents
    let ended := all.takeWhile (column < ·)
    match all.drop ended.length with
    | [] => return
    | indent :: indents =>
      set { s with
        indent := indent
        indents := indents
        queue := s.queue ++ ended.map fun _ => Token.mk .blockEnd s.cursor.position }

def openLevel : Tokens Unit := do
  let s ← get
  set { s with
    slot := ⟨s.taken + s.queue.length, s.cursor.position, none⟩
    outerSlots := s.slot :: s.outerSlots }
  if depthLimit ≤ s.outerSlots.length then tooDeep

/-- Ends a level of flow style. The number that its slot holds is held back no more. -/
def closeLevel : Tokens Unit := modify fun s =>
  match s.outerSlots with
  | [] => s
  | slot :: outer =>
    { s with slot := slot, outerSlots := outer, held := s.held.filter (· ≠ s.slot.number) }

/-! Finding tokens -/

/-- Passes blanks, comments and line breaks. A tab does not count as a blank where a key may
start. -/
def passGaps (fuel : Nat) : Tokens Unit := do
  let s ← get
  let takesTabs := !s.outerSlots.isEmpty || !s.isKeyAllowed
  scan Scan.skipMark
  let _ ← scan (.span fun c => c = ' ' || (takesTabs && c = '\t'))
  if startsWith '#' (← get).cursor.rest then
    scan (.skipComments s.cursor.rest.length)
  match fuel, (← get).cursor.rest with
  | fuel + 1, c :: _ =>
    if isBreak c then
      let _ ← scan Scan.skipBreak
      if s.outerSlots.isEmpty then allowKey true
      passGaps fuel
  | _, _ => return

def passMark (kind : TokenKind) (width : Nat) : Tokens Unit := do
  let start ← position
  scan (.skip width)
  add kind start

/-- The end of the text starts a new line of its own. -/
def findEnd : Tokens Unit := do
  modify fun s =>
    let p := s.cursor.position
    if p.column = 0 then s
    else { s with cursor := { s.cursor with position := ⟨p.index, p.line + 1, 0⟩ } }
  closeBlocks (-1)
  dropKey
  allowKey false
  add .streamEnd (← position)

def findDirective : Tokens Unit := do
  closeBlocks (-1)
  dropKey
  allowKey false
  let start ← position
  add (← scan Scan.readDirective) start

def findDocumentMark (kind : TokenKind) : Tokens Unit := do
  closeBlocks (-1)
  dropKey
  allowKey false
  passMark kind 3

def findFlowStart (kind : TokenKind) : Tokens Unit := do
  noteKey
  openLevel
  allowKey true
  passMark kind 1

def findFlowEnd (kind : TokenKind) : Tokens Unit := do
  dropKey
  closeLevel
  allowKey false
  passMark kind 1

def findFlowEntry : Tokens Unit := do
  dropKey
  allowKey true
  passMark .flowEntry 1

/-- In flow style an entry of a block is left to be refused later. -/
def findBlockEntry : Tokens Unit := do
  let start ← position
  if !(← inFlow) then
    if !(← get).isKeyAllowed then scan (.fail start .entryNotAllowed)
    openBlock start.column .blockSequence start none
  dropKey
  allowKey true
  passMark .blockEntry 1

def findKey : Tokens Unit := do
  let start ← position
  if !(← inFlow) then
    if !(← get).isKeyAllowed then scan (.fail start .keyNotAllowed)
    openBlock start.column .blockMapping start none
  dropKey
  allowKey (!(← inFlow))
  passMark .key 1

/-- A colon makes a key of what was pending. -/
def findValue : Tokens Unit := do
  let start ← position
  match ← currentKey? with
  | some k =>
    insertAt k.number .key k.position
    openBlock k.position.column .blockMapping k.position (some k.number)
    modify fun s => { s with
      slot := { s.slot with key := none }
      held := s.held.filter (· ≠ k.number)
      isKeyAllowed := false }
  | none =>
    if !(← inFlow) then
      if !(← get).isKeyAllowed then scan (.fail start .valueNotAllowed)
      openBlock start.column .blockMapping start none
    allowKey (!(← inFlow))
  passMark .value 1

/-- A token that may start a key, and after which none may start on the same line. -/
def findContent (read : Scan TokenKind) : Tokens Unit := do
  noteKey
  allowKey false
  let start ← position
  add (← scan read) start

def findQuoted (quote : Char) : Tokens Unit :=
  findContent (TokenKind.scalar false <$> Scan.readQuoted quote)

def findPlain : Tokens Unit := do
  noteKey
  allowKey false
  let start ← position
  let (text, endsLine) ← scan (Scan.readPlain (← inFlow) ((← get).indent + 1))
  add (.scalar true text) start
  if endsLine then allowKey true

def findBlockText (isLiteral : Bool) : Tokens Unit := do
  dropKey
  allowKey true
  let start ← position
  let text ← scan (Scan.readBlock isLiteral (← get).indent)
  add (.scalar false text) start

/-- Characters that start no plain scalar unless the next character allows it. -/
def isIndicatorChar (c : Char) : Bool :=
  [0x2D, 0x3F, 0x3A, 0x2C, 0x5B, 0x5D, 0x7B, 0x7D, 0x23, 0x26, 0x2A, 0x21, 0x7C, 0x3E,
    0x27, 0x22, 0x25,
    0x40, 0x60].contains c.toNat

def startsPlain (inFlow : Bool) : List Char → Bool
  | [] => false
  | c :: cs =>
    (!isGap c && !isIndicatorChar c) || (c = '-' && !(cs.head?.map isBlank).getD false) ||
      (!inFlow && (c = '?' || c = ':') && !startsGap cs)

def findMarked (c : Char) (cs : List Char) : Tokens Unit := do
  let inFlow ← inFlow
  if c = '[' then findFlowStart .flowSequence
  else if c = openBrace then findFlowStart .flowMapping
  else if c = ']' then findFlowEnd .flowSequenceEnd
  else if c = closeBrace then findFlowEnd .flowMappingEnd
  else if c = ',' then findFlowEntry
  else if c = '-' && startsGap cs then findBlockEntry
  else if c = '?' && (inFlow || startsGap cs) then findKey
  else if c = ':' && (inFlow || startsGap cs) then findValue
  else if c = '*' then findContent (TokenKind.reference <$> Scan.readAnchor)
  else if c = '&' then findContent (TokenKind.anchor <$> Scan.readAnchor)
  else if c = '!' then findContent Scan.readTag
  else if c = '|' && !inFlow then findBlockText true
  else if c = '>' && !inFlow then findBlockText false
  else if c = '\'' || c = '"' then findQuoted c
  else if startsPlain inFlow (c :: cs) then findPlain
  else scan (.fail (← position) .strayCharacter)
  if c ≠ '-' || !startsGap cs then scan Scan.skipLineComment

def find : Tokens Unit := do
  scan (.need 1)
  let s ← get
  if !s.isStarted then
    set { s with isStarted := true }
    add .streamStart s.cursor.position
  else
    passGaps s.cursor.rest.length
    let p ← position
    closeBlocks p.column
    scan (.need 4)
    let rest := (← get).cursor.rest
    match rest with
    | [] => findEnd
    | c :: cs =>
      if p.column = 0 && c = '%' then findDirective
      else if p.column = 0 && startsMark '-' rest then findDocumentMark .documentStart
      else if p.column = 0 && startsMark '.' rest then findDocumentMark .documentEnd
      else findMarked c cs

def needsMore : Tokens Bool := do
  if (← get).queue.length < 3 then return true else isHeld

def findEnough (fuel : Nat) : Tokens Unit := do
  match fuel with
  | 0 => return
  | fuel + 1 =>
    if ← needsMore then
      find
      findEnough fuel

/-! Taking tokens -/

def peek : Tokens Token := do
  let s ← get
  findEnough (s.cursor.rest.length + 4)
  return ((← get).queue.head?).getD ⟨.streamEnd, s.cursor.position⟩

def drop : Tokens Unit := modify fun s => { s with queue := s.queue.drop 1, taken := s.taken + 1 }

end Tokens

end ListLang.Yaml
