import ListLang.Text.Decode
import ListLang.Yaml.Token
import ListLang.Yaml.Token.Scalar

/-! Reading what stands before the nodes of a YAML text: anchors, tags and directives. -/

namespace ListLang.Yaml.Scan

def endsAnchor (cs : List Char) : Bool :=
  startsGap cs || (cs.head?.map fun c =>
    [0x3F, 0x3A, 0x2C, 0x5D, 0x7D, 0x25, 0x40, 0x60].contains c.toNat).getD true

def readAnchor : Scan String := do
  let began ← position
  skip 1
  let name ← span isNameChar
  if name.isEmpty || !endsAnchor (← rest) then fail began .anchorName
  return String.ofList name

/-! Tags -/

/-- How many bytes follow the first byte of a character. -/
def moreBytes? (b : Nat) : Option Nat :=
  if b < 0x80 then some 0
  else if 0xC0 ≤ b && b < 0xE0 then some 1
  else if 0xE0 ≤ b && b < 0xF0 then some 2
  else if 0xF0 ≤ b && b < 0xF8 then some 3
  else none

def readOctet (began : Position) : Scan Nat := do
  need 3
  match ← rest with
  | '%' :: a :: b :: _ =>
    match hexNumber? [a, b] with
    | some n =>
      skip 3
      return n
    | none => fail began .tagOctet
  | _ => fail began .tagOctet

def readTrailingOctets (began : Position) : Nat → Scan (List UInt8)
  | 0 => return []
  | n + 1 => do
    let b ← readOctet began
    if b / 0x40 ≠ 2 then fail began .tagTrailingOctet
    else return b.toUInt8 :: (← readTrailingOctets began n)

/-- A character whose bytes are given by escapes. -/
def readOctets (began : Position) : Scan (List Char) := do
  let b ← readOctet began
  match moreBytes? b with
  | none => fail began .tagLeadingOctet
  | some n => return Text.decode (b.toUInt8 :: (← readTrailingOctets began n))

def isTagChar (c : Char) : Bool := isNameChar c || ";/?:@&=+$,.!~*'()[]".toList.contains c

def readTagChars (began : Position) (fuel : Nat) (text : List Char) : Scan (List Char) := do
  need 1
  match fuel, ← rest with
  | fuel + 1, c :: _ =>
    if c = '%' then
      let cs ← readOctets began
      readTagChars began fuel (text ++ cs)
    else if isTagChar c then
      skip 1
      readTagChars began fuel (text ++ [c])
    else return text
  | _, _ => return text

/-- The main part of a tag, of which the beginning may have been read already. -/
def readTagText (began : Position) (head : List Char) : Scan (List Char) := do
  let cs ← readTagChars began (← rest).length []
  if head.isEmpty && cs.isEmpty then fail began .tagSuffix
  return head.drop 1 ++ cs

/-- A handle between exclamation marks, of which the second is needed in a directive only. -/
def readHandle (inDirective : Bool) (began : Position) : Scan (List Char) := do
  if !startsWith '!' (← rest) then fail began .tagMark
  skip 1
  let name ← span isNameChar
  if startsWith '!' (← rest) then
    skip 1
    return '!' :: name ++ ['!']
  else if inDirective && !name.isEmpty then fail began .tagMark
  else return '!' :: name

def readTag : Scan TokenKind := do
  let began ← position
  need 2
  let (handle, text) ←
    if startsWith '<' ((← rest).drop 1) then do
      skip 2
      let text ← readTagText began []
      if !startsWith '>' (← rest) then fail began .tagAngle
      skip 1
      pure ([], text)
    else do
      let handle ← readHandle false began
      if 1 < handle.length && handle.getLast? = some '!' then
        pure (handle, ← readTagText began [])
      else
        let text ← readTagText began handle
        pure (if text.isEmpty then ([], ['!']) else (['!'], text))
  need 1
  if !startsGap (← rest) then fail began .whitespaceOrBreakExpected
  return .tag (String.ofList handle) (String.ofList text)

/-! Directives -/

def readVersionNumber (began : Position) : Scan Nat := do
  let digits ← spanUpTo 2 Char.isDigit
  if digits.isEmpty then fail began .versionNumber
  else if ((← rest).head?.map Char.isDigit).getD false then fail began .versionTooLong
  else return digits.foldl (fun n d => 10 * n + (d.toNat - 0x30)) 0

def readVersion (began : Position) : Scan TokenKind := do
  let _ ← span isBlank
  let major ← readVersionNumber began
  if !startsWith '.' (← rest) then fail began .versionPoint
  skip 1
  return .version major (← readVersionNumber began)

def readHandleDirective (began : Position) : Scan TokenKind := do
  let _ ← span isBlank
  let handle ← readHandle true began
  need 1
  if !((← rest).head?.map isBlank).getD false then fail began .whitespaceExpected
  let _ ← span isBlank
  let text ← readTagText began []
  if !startsGap (← rest) then fail began .whitespaceOrBreakExpected
  return .handle (String.ofList handle) (String.ofList text)

def readDirective : Scan TokenKind := do
  let began ← position
  skip 1
  let name ← span isNameChar
  if name.isEmpty then fail began .directiveName
  if !startsGap (← rest) then fail began .directiveNameEnd
  let kind ← match String.ofList name with
    | "YAML" => readVersion began
    | "TAG" => readHandleDirective began
    | _ => fail began .unknownDirective
  endLine began
  return kind

end ListLang.Yaml.Scan
