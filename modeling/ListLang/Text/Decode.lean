/-! Source text arrives as bytes. A byte that starts no valid UTF-8 sequence stands for the
replacement character, one for each such byte, so every byte sequence has a text. -/

namespace ListLang.Text

/-- Stands for a byte that is part of no valid sequence. -/
def replacement : Char := '\ufffd'

def isContinuation (b : UInt8) : Bool := 0x80 ≤ b && b ≤ 0xBF

/-- The second byte of a three-byte sequence: no overlong form, no surrogate. -/
def fitsSecondOfThree (a b : UInt8) : Bool :=
  isContinuation b && (a != 0xE0 || 0xA0 ≤ b) && (a != 0xED || b ≤ 0x9F)

/-- The second byte of a four-byte sequence: no overlong form, nothing above U+10FFFF. -/
def fitsSecondOfFour (a b : UInt8) : Bool :=
  isContinuation b && (a != 0xF0 || 0x90 ≤ b) && (a != 0xF4 || b ≤ 0x8F)

def tail6 (b : UInt8) : Nat := b.toNat % 64

/-- The character of a valid sequence at the front, and how many bytes it takes after the first. -/
def sequence? : List UInt8 → Option (Char × Nat)
  | [] => none
  | a :: rest =>
    if a < 0x80 then some (Char.ofNat a.toNat, 0)
    else if 0xC2 ≤ a && a ≤ 0xDF then
      match rest with
      | b :: _ =>
        if isContinuation b then some (Char.ofNat (a.toNat % 32 * 64 + tail6 b), 1) else none
      | _ => none
    else if 0xE0 ≤ a && a ≤ 0xEF then
      match rest with
      | b :: c :: _ =>
        if fitsSecondOfThree a b && isContinuation c then
          some (Char.ofNat ((a.toNat % 16 * 64 + tail6 b) * 64 + tail6 c), 2)
        else none
      | _ => none
    else if 0xF0 ≤ a && a ≤ 0xF4 then
      match rest with
      | b :: c :: d :: _ =>
        if fitsSecondOfFour a b && isContinuation c && isContinuation d then
          some (Char.ofNat (((a.toNat % 8 * 64 + tail6 b) * 64 + tail6 c) * 64 + tail6 d), 3)
        else none
      | _ => none
    else none

def decode : List UInt8 → List Char
  | [] => []
  | a :: rest =>
    match sequence? (a :: rest) with
    | some (c, more) => c :: decode (rest.drop more)
    | none => replacement :: decode rest
termination_by bytes => bytes.length
decreasing_by
  all_goals simp only [List.length_cons, List.length_drop]; omega

def decodeString (bytes : List UInt8) : String := String.ofList (decode bytes)

end ListLang.Text
