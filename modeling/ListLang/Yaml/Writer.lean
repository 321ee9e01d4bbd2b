import ListLang.Text.Quoted
import ListLang.Yaml.Cursor
import ListLang.Yaml.Scalar

/-! Writing a text as a YAML scalar: plain when it reads back as that text, else in single quotes,
and in double quotes when it needs escapes or would be read as something else. A text with line
feeds becomes a block of lines where it can. -/

namespace ListLang.Yaml

def isPlainChar (c : Char) : Bool :=
  let n := c.toNat
  (0x20 ≤ n && n ≤ 0x7E) || (0xA0 ≤ n && n ≤ 0xD7FF) || (0xE000 ≤ n && n ≤ 0xFFFD && n ≠ 0xFEFF)

def isLegacyBool (s : String) : Bool :=
  ["y", "Y", "yes", "Yes", "YES", "on", "On", "ON", "n", "N", "no", "No", "NO", "off", "Off",
    "OFF"].contains s

def readsAsText (s : String) : Bool :=
  match meaning s with
  | .text => !isLegacyBool s
  | _ => false

def isIndicator (c : Char) : Bool :=
  [0x23, 0x2C, 0x5B, 0x5D, 0x7B, 0x7D, 0x26, 0x2A, 0x21, 0x7C, 0x3E, 0x27, 0x22, 0x25, 0x40,
    0x60].contains c.toNat

def startsSpecially : List Char → Bool
  | [] => false
  | c :: rest =>
    isIndicator c ||
      ((c = '?' || c = '-') && (rest.head?.getD ' ') = ' ') ||
      [c, c, c].isPrefixOf (c :: rest) && (c = '-' || c = '.')

/-- A colon before a space or the end, or a number sign after a space. -/
def hasInnerMark : List Char → Bool
  | [] => false
  | [c] => c = ':'
  | c :: d :: rest => (c = ':' && d = ' ') || (c = ' ' && d = '#') || hasInnerMark (d :: rest)

def isPlainSafe (cs : List Char) : Bool :=
  !startsSpecially cs && !hasInnerMark cs && !cs.any isBreak && cs.head? ≠ some ' ' &&
    cs.getLast? ≠ some ' '

def hasPair (p q : Char → Bool) : List Char → Bool
  | [] => false
  | [_] => false
  | c :: d :: rest => (p c && q d) || hasPair p q (d :: rest)

/-- Single quotes keep no space beside a line break. -/
def isQuotable (cs : List Char) : Bool :=
  cs.all isPlainChar && !hasPair (· = ' ') isBreak cs && !hasPair isBreak (· = ' ') cs

/-- A block keeps no space at the end of a line. -/
def isBlockable (cs : List Char) : Bool :=
  (cs.all fun c => isPlainChar c || c = '\t' || c = '\n') && !hasPair (· = ' ') isBreak cs &&
    cs.getLast? ≠ some ' '

/-- The last `width` hexadecimal digits of a number, in upper case. -/
def upperHex (width n : Nat) : List Char := (Text.hex width n).map Char.toUpper

def escape (c : Char) : List Char :=
  if isPlainChar c && !isBreak c && c ≠ '"' && c ≠ '\\' then [c]
  else '\\' :: match c.toNat with
    | 0x00 => ['0']
    | 0x07 => ['a']
    | 0x08 => ['b']
    | 0x09 => ['t']
    | 0x0A => ['n']
    | 0x0B => ['v']
    | 0x0C => ['f']
    | 0x0D => ['r']
    | 0x1B => ['e']
    | 0x22 => ['"']
    | 0x5C => ['\\']
    | 0x85 => ['N']
    | 0x2028 => ['L']
    | 0x2029 => ['P']
    | n =>
      if n ≤ 0xFF then 'x' :: upperHex 2 n
      else if n ≤ 0xFFFF then 'u' :: upperHex 4 n
      else 'U' :: upperHex 8 n

def doubleQuoted (cs : List Char) : List Char := '"' :: cs.flatMap escape ++ ['"']

/-- The lines of a scalar after its first one stand four columns to the right. `starts` tells
whether a line starts here; a line that holds nothing stays empty. -/
def indented (starts : Bool) : List Char → List Char
  | [] => []
  | c :: cs =>
    if isBreak c then c :: indented true cs
    else (if starts then [' ', ' ', ' ', ' '] else []) ++ c :: indented false cs

/-- A single quote within single quotes is written twice. -/
def singleQuoted (cs : List Char) : List Char :=
  '\'' :: indented false (cs.flatMap fun c => if c = '\'' then ['\'', '\''] else [c]) ++ ['\'']

def needsIncrement (cs : List Char) : Bool :=
  (cs.head?.map fun c => c = ' ' || isBreak c).getD false

/-- What is told of the line breaks at the end of a block: that there is none, or that there are
more than the last one. -/
def chomping (cs : List Char) : List Char :=
  match cs.reverse with
  | [] => ['-']
  | c :: rest =>
    if !isBreak c then ['-'] else if (rest.head?.map isBreak).getD true then ['+'] else []

def block (cs : List Char) : List Char :=
  '|' :: (if needsIncrement cs then ['4'] else []) ++ chomping cs ++ '\n' :: indented true cs

def scalar (s : String) : String :=
  let cs := s.toList
  String.ofList <|
    if cs.contains '\n' then if isBlockable cs then block cs else doubleQuoted cs
    else if !readsAsText s || !isQuotable cs then doubleQuoted cs
    else if isPlainSafe cs then cs
    else singleQuoted cs

end ListLang.Yaml
