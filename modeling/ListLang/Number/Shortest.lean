import ListLang.Number.Decimal
import ListLang.Number.Binary64

/-! The shortest decimal that reads back as a given double: of all decimals within half a unit of it
one with the fewest digits, and of these the nearest, an even last digit deciding a tie. -/

namespace ListLang.Shortest

structure Decimal where
  digits : Nat
  exponent : Int

/-- A value and the ends of the interval of numbers that round to it, over one denominator. -/
structure Neighbourhood where
  low : Nat
  value : Nat
  high : Nat
  den : Nat
  closed : Bool

/-- The neighbourhood of m · 2^q. Below a power of two the next double is only half as far. -/
def neighbourhood (m : Nat) (q : Int) : Neighbourhood :=
  let below := if m = pow2 52 && -1074 < q then 1 else 2
  let up := pow2 q.toNat
  ⟨(4 * m - below) * up, 4 * m * up, (4 * m + 2) * up, 4 * pow2 (-q).toNat, m % 2 = 0⟩

def leadingExponent (num den : Nat) : Int :=
  if den ≤ num then decimalLength (num / den) - 1
  else -(decimalLength ((den + num - 1) / num - 1))

def Neighbourhood.holds (n : Neighbourhood) (num : Nat) : Bool :=
  if n.closed then n.low ≤ num && num ≤ n.high else n.low < num && num < n.high

/-- The best decimal of the grid with spacing 10^k, if one of the two around the value reads
back. -/
def candidate? (n : Neighbourhood) (k : Int) : Option Nat :=
  let up := pow10 (-k).toNat
  let step := n.den * pow10 k.toNat
  let n : Neighbourhood := ⟨n.low * up, n.value * up, n.high * up, n.den, n.closed⟩
  let d := n.value / step
  let r := n.value % step
  let lower := n.holds (d * step)
  let upper := n.holds ((d + 1) * step)
  if lower && upper then
    if 2 * r < step || (2 * r = step && d % 2 = 0) then some d else some (d + 1)
  else if lower then some d
  else if upper then some (d + 1)
  else none

/-- Tries grids with one digit more each time. Seventeen digits always suffice. -/
def search (n : Neighbourhood) (e : Int) : Nat → Nat → Decimal
  | 0, _ => ⟨n.value / n.den, 0⟩
  | tries + 1, count =>
    match candidate? n (e - count) with
    | some d => ⟨d, e - count⟩
    | none => search n e tries (count + 1)

def ofDyadic (m : Nat) (q : Int) : Decimal :=
  let n := neighbourhood m q
  search n (leadingExponent n.value n.den) 17 0

end ListLang.Shortest
