import ListLang.Number.Reader
import ListLang.Yaml.Cursor

/-! Reading the scalars of a YAML text: plain, in quotes, or as a block of lines. -/

namespace ListLang.Yaml.Scan

/-! Gaps -/

structure Gap where
  /-- The blanks, as long as there is no line break. -/
  blanks : List Char
  hasBreak : Bool
  firstBreak : List Char
  moreBreaks : List Char

def Gap.none : Gap := ⟨[], false, [], []⟩

/-- A line feed alone becomes a space; the first of several is dropped. -/
def Gap.text (g : Gap) : List Char :=
  if !g.hasBreak then g.blanks
  else if !startsWith '\n' g.firstBreak then g.firstBreak ++ g.moreBreaks
  else if g.moreBreaks.isEmpty then [' ']
  else g.moreBreaks

/-- Reads blanks and line breaks. `onBlank` comes before each blank of a new line. -/
def readGap (onBlank : Scan Unit) (fuel : Nat) (g : Gap) : Scan Gap := do
  need 1
  match fuel, ← rest with
  | fuel + 1, c :: _ =>
    if isBlank c then
      if g.hasBreak then onBlank
      skip 1
      readGap onBlank fuel (if g.hasBreak then g else { g with blanks := g.blanks ++ [c] })
    else if isBreak c then
      let b ← skipBreak
      readGap onBlank fuel
        (if g.hasBreak then { g with moreBreaks := g.moreBreaks ++ b } else ⟨[], true, b, []⟩)
    else return g
  | _, _ => return g

/-! Quotes -/

/-- The escapes of double quotes that stand for one character each. -/
def escapedChar? : Char → Option Char
  | '0' => some (Char.ofNat 0)
  | 'a' => some (Char.ofNat 7)
  | 'b' => some (Char.ofNat 8)
  | 't' => some '\t'
  | '\t' => some '\t'
  | 'n' => some '\n'
  | 'v' => some (Char.ofNat 0x0B)
  | 'f' => some (Char.ofNat 0x0C)
  | 'r' => some '\r'
  | 'e' => some (Char.ofNat 0x1B)
  | ' ' => some ' '
  | '"' => some '"'
  | '\'' => some '\''
  | '\\' => some '\\'
  | 'N' => some (Char.ofNat 0x85)
  | '_' => some (Char.ofNat 0xA0)
  | 'L' => some (Char.ofNat 0x2028)
  | 'P' => some (Char.ofNat 0x2029)
  | _ => none

def escapeWidth? : Char → Option Nat
  | 'x' => some 2
  | 'u' => some 4
  | 'U' => some 8
  | _ => none

def hexNumber? (cs : List Char) : Option Nat :=
  cs.foldl (fun n c => match n, FloatReader.hexValue? c with
    | some n, some d => some (16 * n + d)
    | _, _ => none) (some 0)

def readEscape (began : Position) : Scan Char := do
  match (← rest).drop 1 with
  | [] => fail began .unknownEscape
  | e :: _ =>
    match escapedChar? e, escapeWidth? e with
    | some c, _ =>
      skip 2
      return c
    | none, none => fail began .unknownEscape
    | none, some width =>
      skip 2
      need width
      let digits := (← rest).take width
      match hexNumber? digits with
      | none => fail began .escapeDigits
      | some n =>
        if digits.length < width then fail began .escapeDigits
        else if (0xD800 ≤ n && n ≤ 0xDFFF) || 0x10FFFF < n then fail began .escapeValue
        else
          skip width
          return Char.ofNat n

/-- Characters in quotes up to a gap or the closing quote, and whether an escaped line break ends
them. -/
def readQuotedRun (quote : Char) (began : Position) (fuel : Nat) : Scan (List Char × Bool) := do
  match fuel, ← rest with
  | fuel + 1, c :: cs =>
    if isGap c || (c = quote && !(quote = '\'' && startsWith quote cs)) then return ([], false)
    else if quote = '"' && c = '\\' && !cs.isEmpty && startsBreak cs then
      need 3
      skip 1
      let _ ← skipBreak
      return ([], true)
    else
      let d ← if quote = '"' && c = '\\' then readEscape began
        else do
          skip (if c = quote then 2 else 1)
          pure c
      need 2
      let (text, isBroken) ← readQuotedRun quote began fuel
      return (d :: text, isBroken)
  | _, _ => return ([], false)

def readQuotedFrom (quote : Char) (began : Position) (fuel : Nat) : Scan (List Char) := do
  let c ← get
  match fuel with
  | 0 => fail began .unclosedQuote
  | fuel + 1 =>
    need 4
    if c.position.column = 0 && startsDocumentMark c.rest then fail began .markInQuotes
    else if c.rest.isEmpty then fail began .unclosedQuote
    else
      let (run, isBroken) ← readQuotedRun quote began fuel
      need 1
      if startsWith quote (← rest) then
        skip 1
        return run
      else
        let gap ← readGap (pure ()) fuel ⟨[], isBroken, [], []⟩
        return run ++ gap.text ++ (← readQuotedFrom quote began fuel)

def readQuoted (quote : Char) : Scan String := do
  let c ← get
  skip 1
  return String.ofList (← readQuotedFrom quote c.position (c.rest.length + 1))

/-! Plain scalars -/

def isFlowMark (c : Char) : Bool := [0x2C, 0x3F, 0x5B, 0x5D, 0x7B, 0x7D].contains c.toNat

/-- Characters of a plain scalar up to a gap, a colon before a gap, or a mark of flow style. -/
def readPlainRun (inFlow : Bool) (fuel : Nat) : Scan (List Char) := do
  match fuel, ← rest with
  | fuel + 1, c :: cs =>
    if isGap c || (c = ':' && startsGap cs) || (inFlow && isFlowMark c) then return []
    else
      skip 1
      need 2
      return c :: (← readPlainRun inFlow fuel)
  | _, _ => return []

/-- What follows `gap` in a plain scalar that belongs right of `indent`, and whether it ends with a
line. -/
def readPlainFrom (inFlow : Bool) (indent : Int) (began : Position) (fuel : Nat) (gap : Gap) :
    Scan (List Char × Bool) := do
  let c ← get
  match fuel with
  | 0 => return ([], gap.hasBreak)
  | fuel + 1 =>
    need 4
    if (c.position.column = 0 && startsDocumentMark c.rest) || startsWith '#' c.rest then
      return ([], gap.hasBreak)
    else
      let run ← readPlainRun inFlow fuel
      let text := if run.isEmpty then [] else gap.text ++ run
      let gap := if run.isEmpty then gap else .none
      match ← rest with
      | [] => return (text, gap.hasBreak)
      | d :: _ =>
        if !isGap d then return (text, gap.hasBreak)
        else
          let gap ← readGap (checkTab began indent) fuel .none
          if !inFlow && (← position).column < indent then return (text, gap.hasBreak)
          else
            let (more, endsLine) ← readPlainFrom inFlow indent began fuel gap
            return (text ++ more, endsLine)
where
  checkTab (began : Position) (indent : Int) : Scan Unit := do
    if startsWith '\t' (← rest) && (← position).column < indent then fail began .tabInPlain

def readPlain (inFlow : Bool) (indent : Int) : Scan (String × Bool) := do
  let c ← get
  let (text, endsLine) ← readPlainFrom inFlow indent c.position (c.rest.length + 1) .none
  return (String.ofList text, endsLine)

/-! Blocks -/

inductive Chomping where
  | strip
  | clip
  | keep
  deriving DecidableEq

def readChomping : Scan (Option Chomping) := do
  need 1
  let c := (← rest).head?
  if c = some '+' then
    skip 1
    return some .keep
  else if c = some '-' then
    skip 1
    return some .strip
  else return none

def readIncrement (began : Position) : Scan (Option Nat) := do
  need 1
  match (← rest).head? with
  | none => return none
  | some c =>
    if c = '0' then fail began .zeroIndentation
    else if c.isDigit then
      skip 1
      return some (c.toNat - 0x30)
    else return none

def readHeader (began : Position) : Scan (Chomping × Option Nat) := do
  match ← readChomping with
  | some chomping => return (chomping, ← readIncrement began)
  | none =>
    let increment ← readIncrement began
    let chomping ← if increment.isSome then readChomping else pure none
    return (chomping.getD .clip, increment)

/-- Empty lines of a block; `indent` is none while its indentation is not known. Also tells how far
right a line reached. -/
def readEmptyLines (began : Position) (indent : Option Nat) (fuel : Nat) (widest : Nat)
    (breaks : List Char) : Scan (Nat × List Char) := do
  let c ← get
  let room := (indent.map (· - c.position.column)).getD c.rest.length
  let _ ← spanUpTo room (· = ' ')
  let column := (← position).column
  let widest := max widest column
  if startsWith '\t' (← rest) && (indent.map fun n => decide (column < n)).getD true then
    fail began .tabForIndentation
  else match fuel, ← rest with
    | fuel + 1, b :: _ =>
      if isBreak b then
        let text ← skipBreak
        readEmptyLines began indent fuel widest (breaks ++ text)
      else return (widest, breaks)
    | _, _ => return (widest, breaks)

/-- The lines of a block from the first one that is not empty, and the line breaks at its end. -/
def readBlockLines (isLiteral : Bool) (began : Position) (indent fuel : Nat)
    (text lastBreak moreBreaks : List Char) (wasBlank : Bool) :
    Scan (List Char × List Char × List Char) := do
  let c ← get
  match fuel with
  | 0 => return (text, lastBreak, moreBreaks)
  | fuel + 1 =>
    if c.position.column ≠ indent || c.rest.isEmpty then return (text, lastBreak, moreBreaks)
    else
      let startsBlank := (c.rest.head?.map isBlank).getD false
      let joint :=
        if !isLiteral && !wasBlank && !startsBlank && startsWith '\n' lastBreak then
          if moreBreaks.isEmpty then [' '] else []
        else lastBreak
      let line ← span fun ch => !isBreak ch
      let lastBreak ← skipBreak
      let (_, breaks) ← readEmptyLines began (some indent) c.rest.length 0 []
      readBlockLines isLiteral began indent fuel
        (text ++ joint ++ moreBreaks ++ line) lastBreak breaks
        startsBlank

/-- A block of lines, from its indicator. `outer` is the indentation around it. -/
def readBlock (isLiteral : Bool) (outer : Int) : Scan String := do
  let c ← get
  let began := c.position
  skip 1
  let (chomping, increment) ← readHeader began
  endLine began
  let told := increment.map fun n => (max outer 0).toNat + n
  let (widest, breaks) ← readEmptyLines began told c.rest.length 0 []
  let indent := told.getD (max (max widest (outer + 1).toNat) 1)
  let (text, lastBreak, moreBreaks) ←
    readBlockLines isLiteral began indent (c.rest.length + 1) [] [] breaks false
  return String.ofList <| text ++ match chomping with
    | .strip => []
    | .clip => lastBreak
    | .keep => lastBreak ++ moreBreaks

end ListLang.Yaml.Scan
