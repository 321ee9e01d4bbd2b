/-! Bytes written with 64 characters: four of them stand for three bytes. -/

namespace ListLang.Text.Base64

def digit? (c : Char) : Option Nat :=
  if 'A' ≤ c && c ≤ 'Z' then some (c.toNat - 0x41)
  else if 'a' ≤ c && c ≤ 'z' then some (c.toNat - 0x61 + 26)
  else if '0' ≤ c && c ≤ '9' then some (c.toNat - 0x30 + 52)
  else if c = '+' then some 62
  else if c = '/' then some 63
  else none

/-- The bytes of groups of four. Only the last group may be padded, and what is left over of its
bits does not count. -/
def groups? : List Char → Option (List UInt8)
  | [] => some []
  | [a, b, '=', '='] => do
    let m ← digit? a
    let n ← digit? b
    return [(m * 4 + n / 16).toUInt8]
  | [a, b, c, '='] => do
    let m ← digit? a
    let n ← digit? b
    let k ← digit? c
    return [(m * 4 + n / 16).toUInt8, (n % 16 * 16 + k / 4).toUInt8]
  | a :: b :: c :: d :: rest => do
    let m ← digit? a
    let n ← digit? b
    let k ← digit? c
    let l ← digit? d
    let bytes ← groups? rest
    return (m * 4 + n / 16).toUInt8 :: (n % 16 * 16 + k / 4).toUInt8 ::
      (k % 4 * 64 + l).toUInt8 :: bytes
  | _ => none

/-- Line breaks may stand anywhere. -/
def decode? (cs : List Char) : Option (List UInt8) :=
  groups? (cs.filter fun c => c ≠ '\n' && c ≠ '\r')

end ListLang.Text.Base64
