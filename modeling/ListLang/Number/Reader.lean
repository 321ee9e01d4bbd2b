import ListLang.Number.Decimal
import ListLang.Number.Binary64

/-! Reading numbers. An integer is a signed row of decimal digits within 64 bits. A double is a
decimal numeral with an optional exponent, a hexadecimal numeral with a binary exponent, an infinity
or a NaN; underscores may stand between digits. -/

namespace ListLang

def splitSign : List Char → Bool × List Char
  | '-' :: cs => (true, cs)
  | '+' :: cs => (false, cs)
  | cs => (false, cs)

def inInt64 (i : Int) : Bool := -9223372036854775808 ≤ i && i < 9223372036854775808

def readInt? (cs : List Char) : Option Int64 :=
  let (negative, ds) := splitSign cs
  if ds.isEmpty || !ds.all Char.isDigit then none
  else
    let i : Int := if negative then -ofDigits ds else ofDigits ds
    if inInt64 i then some (Int64.ofInt i) else none

namespace FloatReader

/-- The base of a numeral decides its digits, its exponent letter and the unit of its exponent. -/
inductive Base where
  | decimal
  | hexadecimal
  deriving DecidableEq

def hexValue? (c : Char) : Option Nat :=
  if c.isDigit then some (digitValue c)
  else if 'a' ≤ c.toLower && c.toLower ≤ 'f' then some (c.toLower.toNat - 'a'.toNat + 10)
  else none

def Base.digit? (b : Base) (c : Char) : Option Nat :=
  match b with
  | .decimal => if c.isDigit then some (digitValue c) else none
  | .hexadecimal => hexValue? c

def Base.radix : Base → Nat
  | .decimal => 10
  | .hexadecimal => 16

def Base.exponentLetter : Base → Char
  | .decimal => 'e'
  | .hexadecimal => 'p'

def splitBase : List Char → Base × List Char
  | '0' :: x :: c :: rest =>
    if x.toLower = 'x' then (.hexadecimal, c :: rest) else (.decimal, '0' :: x :: c :: rest)
  | cs => (.decimal, cs)

inductive Before where
  | digit
  | underscore
  | other
  deriving DecidableEq

/-- Every underscore has a digit on either side. -/
def separated (b : Base) : Before → List Char → Bool
  | last, [] => last ≠ .underscore
  | last, c :: cs =>
    if (b.digit? c).isSome then separated b .digit cs
    else if c = '_' then last = .digit && separated b .underscore cs
    else last ≠ .underscore && separated b .other cs

/-- Underscores in the numeral that follows the sign; a base mark counts as a digit. -/
def underscoresFit (cs : List Char) : Bool :=
  !cs.contains '_' ||
    match cs with
    | '0' :: x :: rest =>
      if x.toLower = 'x' then separated .hexadecimal .digit rest
      else if x.toLower = 'b' || x.toLower = 'o' then separated .decimal .digit rest
      else separated .decimal .other cs
    | cs => separated .decimal .other cs

/-- The digits of an exponent. Past ten thousand further digits make no difference and are not
counted. -/
def exponentValue (cs : List Char) : Nat :=
  (cs.filter Char.isDigit).foldl (fun n c => if n < 10000 then 10 * n + digitValue c else n) 0

/-- The exponent part: absent (not allowed after a hexadecimal numeral), or letter, sign and
digits. -/
def readExponent? (b : Base) : List Char → Option Int
  | [] => if b = .decimal then some 0 else none
  | l :: cs =>
    if l.toLower ≠ b.exponentLetter then none
    else
      let (negative, ds) := splitSign cs
      match ds with
      | [] => none
      | d :: _ =>
        if d.isDigit && ds.all (fun c => c.isDigit || c = '_') then
          some (if negative then -exponentValue ds else exponentValue ds)
        else none

/-- The numeral `n · radix^(-places)` times its exponent's power, as the nearest double. -/
def compose (negative : Bool) (b : Base) (n places : Nat) (e : Int) : Float :=
  if n = 0 then Binary64.nearest negative 0 1
  else match b with
    | .decimal =>
      let e := e - places
      if 0 ≤ e then Binary64.nearest negative (n * pow10 e.toNat) 1
      else Binary64.nearest negative n (pow10 (-e).toNat)
    | .hexadecimal => Binary64.ofDyadic negative n (e - 4 * places)

def readNumeral? (negative : Bool) (cs : List Char) : Option Float :=
  let (b, body) := splitBase cs
  let isPart (c : Char) : Bool := (b.digit? c).isSome || c = '.' || c = '_'
  let mantissa := body.takeWhile isPart
  let whole := (mantissa.takeWhile (· ≠ '.')).filterMap b.digit?
  let fraction := (mantissa.dropWhile (· ≠ '.')).filterMap b.digit?
  if 1 < mantissa.count '.' || (whole.isEmpty && fraction.isEmpty) || !underscoresFit cs then none
  else
    match readExponent? b (body.dropWhile isPart) with
    | none => none
    | some e =>
      let n := (whole ++ fraction).foldl (fun n d => b.radix * n + d) 0
      let x := compose negative b n fraction.length e
      if Binary64.isInfinite x then none else some x

end FloatReader

/-- The double that a text stands for. A numeral too large for a double stands for none. -/
def readFloat? (cs : List Char) : Option Float :=
  let (negative, body) := splitSign cs
  let word := String.ofList (body.map Char.toLower)
  if word = "inf" || word = "infinity" then some (Binary64.infinity negative)
  else if cs.map Char.toLower = ['n', 'a', 'n'] then some Binary64.nan
  else FloatReader.readNumeral? negative body

end ListLang
