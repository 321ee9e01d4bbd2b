import ListLang.Number.Shortest

/-! How a double is written: the shortest digits that read back, positionally or with an exponent,
and always recognisable as a double. -/

namespace ListLang

/-- Where positional notation ends, and how many digits an exponent has at least. -/
structure FloatLayout where
  lowest : Int
  highest : Int
  exponentWidth : Nat

/-- Exponents from -4 to 5 are written positionally; others have a sign and two digits or more. -/
def valueLayout : FloatLayout := ⟨-4, 5, 2⟩

def dropTrailingZeros (cs : List Char) : List Char := (cs.reverse.dropWhile (· = '0')).reverse

/-- The digits `ds`, the first of them at 10^e, in positional notation. -/
def positional (ds : List Char) (e : Int) : List Char :=
  if e < 0 then '0' :: '.' :: List.replicate (-e - 1).toNat '0' ++ ds
  else
    let whole := e.toNat + 1
    let fraction := ds.drop whole
    ds.take whole ++ List.replicate (whole - ds.length) '0' ++
      '.' :: (if fraction.isEmpty then ['0'] else fraction)

def padLeft (width : Nat) (cs : List Char) : List Char :=
  List.replicate (width - cs.length) '0' ++ cs

def scientific (width : Nat) (ds : List Char) (e : Int) : List Char :=
  let mantissa := match ds with
    | d :: f :: rest => d :: '.' :: f :: rest
    | ds => ds
  mantissa ++ 'e' :: (if e < 0 then '-' else '+') :: padLeft width (Nat.toDigits 10 e.natAbs)

def FloatLayout.write (layout : FloatLayout) (d : Shortest.Decimal) : List Char :=
  let all := Nat.toDigits 10 d.digits
  let e := d.exponent + all.length - 1
  let ds := dropTrailingZeros all
  if layout.lowest ≤ e && e ≤ layout.highest then positional ds e
  else scientific layout.exponentWidth ds e

def floatChars (x : Float) : List Char :=
  match Binary64.magnitude x with
  | .nan => ['N', 'a', 'N']
  | .infinite => (if Binary64.isNegative x then '-' else '+') :: ['I', 'n', 'f']
  | .finite m q =>
    (if Binary64.isNegative x then ['-'] else []) ++
      if m = 0 then ['0', '.', '0'] else valueLayout.write (Shortest.ofDyadic m q)

def floatText (x : Float) : String := String.ofList (floatChars x)

end ListLang
