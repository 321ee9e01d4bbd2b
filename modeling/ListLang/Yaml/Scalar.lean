import ListLang.Number.Reader
import ListLang.Yaml.Timestamp

/-! What a plain YAML scalar stands for: null, a truth value, a number, a time, or just its text. -/

namespace ListLang.Yaml

inductive Meaning where
  | null
  | bool (b : Bool)
  | int (i : Int)
  | float (x : Float)
  | timestamp
  | text

def Meaning.tag : Meaning → String
  | null => "!!null"
  | bool _ => "!!bool"
  | int _ => "!!int"
  | float _ => "!!float"
  | timestamp => "!!timestamp"
  | text => "!!str"

def wordMeaning? (s : String) : Option Meaning :=
  if ["", "~", "null", "Null", "NULL"].contains s then some .null
  else if ["true", "True", "TRUE"].contains s then some (.bool true)
  else if ["false", "False", "FALSE"].contains s then some (.bool false)
  else if [".nan", ".NaN", ".NAN"].contains s then some (.float Binary64.nan)
  else if [".inf", ".Inf", ".INF", "+.inf", "+.Inf", "+.INF"].contains s then
    some (.float (Binary64.infinity false))
  else if ["-.inf", "-.Inf", "-.INF"].contains s then some (.float (Binary64.infinity true))
  else none

def readBase? (base : Nat) (cs : List Char) : Option Nat :=
  if cs.isEmpty then none
  else cs.foldl (fun n c => match n, FloatReader.hexValue? c with
    | some n, some d => if d < base then some (base * n + d) else none
    | _, _ => none) (some 0)

/-- A numeral without its sign: a mark or a leading zero tells its base. -/
def readUnsigned? : List Char → Option Nat
  | '0' :: c :: cs =>
    if c.toLower = 'x' then readBase? 16 cs
    else if c.toLower = 'b' then readBase? 2 cs
    else if c.toLower = 'o' then readBase? 8 cs
    else readBase? 8 (c :: cs)
  | cs => readBase? 10 cs

/-- An integer of 64 bits, or an unsigned one when it has no sign. -/
def readInteger? (cs : List Char) : Option Int :=
  let (negative, body) := splitSign cs
  match readUnsigned? body with
  | none => none
  | some n =>
    let i : Int := if negative then -n else n
    if inInt64 i || (body.length = cs.length && n < pow2 64) then some i else none

/-- In base two and eight the sign may also follow the mark of the base. -/
def readInnerSign? : List Char → Option Int
  | '0' :: c :: cs =>
    let (negative, body) := splitSign cs
    let base? := if c = 'b' then some 2 else if c = 'o' then some 8 else none
    match base?.bind fun base => readBase? base body with
    | none => none
    | some n =>
      let i : Int := if negative then -n else n
      if inInt64 i then some i else none
  | _ => none

def isNumeralPart (c : Char) : Bool :=
  c.isDigit || c = '.' || c = 'e' || c = 'E' || c = '+' || c = '-'

def readDecimal? (cs : List Char) : Option Float :=
  if cs.all isNumeralPart then readFloat? cs else none

/-- Underscores within a number do not count. -/
def numberMeaning (cs : List Char) : Meaning :=
  let plain := cs.filter (· ≠ '_')
  match readInteger? plain, readDecimal? plain, readInnerSign? plain with
  | some i, _, _ => .int i
  | none, some x, _ => .float x
  | none, none, some i => .int i
  | none, none, none => .text

def meaningAmong (hasTimes : Bool) (s : String) : Meaning :=
  match wordMeaning? s with
  | some m => m
  | none =>
    match s.toList with
    | '.' :: cs => ((readFloat? ('.' :: cs)).map .float).getD .text
    | c :: cs =>
      if c.isDigit || c = '+' || c = '-' then
        if hasTimes && Timestamp.isTimestamp (c :: cs) then .timestamp else numberMeaning (c :: cs)
      else .text
    | [] => .null

def meaning (s : String) : Meaning := meaningAmong true s

end ListLang.Yaml
