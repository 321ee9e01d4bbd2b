import ListLang.Number.Decimal

/-! Doubles as exact numbers: a finite double is a natural number times a power of two, and every
fraction has a nearest double. -/

namespace ListLang.Binary64

/-- A double without its sign. `finite m q` is m · 2^q. -/
inductive Magnitude where
  | nan
  | infinite
  | finite (m : Nat) (q : Int)

def infinityBits : Nat := 2047 * pow2 52

def isNegative (x : Float) : Bool := pow2 63 ≤ x.toBits.toNat

def magnitude (x : Float) : Magnitude :=
  let exponent : Nat := x.toBits.toNat / pow2 52 % pow2 11
  let fraction : Nat := x.toBits.toNat % pow2 52
  if exponent = 2047 then if fraction = 0 then .infinite else .nan
  else if exponent = 0 then .finite fraction (-1074)
  else .finite (fraction + pow2 52) ((exponent : Int) - 1075)

/-- The quotient rounded to the nearest natural number, a half to the even one. -/
def roundDiv (num den : Nat) : Nat :=
  let q := num / den
  let r := num % den
  if den < 2 * r || (2 * r = den && q % 2 = 1) then q + 1 else q

/-- The quotient of `num` by `den · 2^q`, as a fraction of natural numbers. -/
def scale (num den : Nat) (q : Int) : Nat × Nat :=
  if 0 ≤ q then (num, den * pow2 q.toNat) else (num * pow2 (-q).toNat, den)

/-- The power of two that leaves `num / den` a quotient of 53 bits, or of fewer bits at the bottom
of the range. -/
def unitExponent (num den : Nat) : Int :=
  let q := (num.log2 : Int) - den.log2 - 53
  let (n, d) := scale num den q
  max (if n / d < pow2 53 then q else q + 1) (-1074)

/-- The bits of the double nearest to the positive fraction `num / den`; infinity when it is too
large. -/
def roundBits (num den : Nat) : Nat :=
  if num = 0 then 0
  else
    let q := unitExponent num den
    let (n, d) := scale num den q
    min ((q + 1074).toNat * pow2 52 + roundDiv n d) infinityBits

def ofBits (negative : Bool) (bits : Nat) : Float :=
  Float.ofBits (bits + if negative then pow2 63 else 0).toUInt64

/-- The double nearest to `± num / den`. -/
def nearest (negative : Bool) (num den : Nat) : Float := ofBits negative (roundBits num den)

def ofDyadic (negative : Bool) (m : Nat) (q : Int) : Float :=
  if 0 ≤ q then nearest negative (m * pow2 q.toNat) 1 else nearest negative m (pow2 (-q).toNat)

def ofInt (i : Int) : Float := nearest (i < 0) i.natAbs 1

def infinity (negative : Bool) : Float := ofBits negative infinityBits

def nan : Float := Float.ofBits 0x7FF8000000000001

def isInfinite (x : Float) : Bool :=
  match magnitude x with
  | .infinite => true
  | _ => false

/-- The remainder of the division of `x` by `y` toward zero: exact, and with the sign of `x`. -/
def remainder (x y : Float) : Float :=
  match magnitude x, magnitude y with
  | .finite m q, .finite n p =>
    let e := min q p
    let a := m * pow2 (q - e).toNat
    let b := n * pow2 (p - e).toNat
    if b = 0 then nan else ofDyadic (isNegative x) (a % b) e
  | .finite _ _, .infinite => x
  | _, _ => nan

end ListLang.Binary64
