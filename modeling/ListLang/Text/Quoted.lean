import ListLang.Text.Decode
import ListLang.Text.Printable

/-! Quoted text: double quotes around it, quotes and backslashes escaped, unprintable characters
shown by their code in lower-case hexadecimal. -/

namespace ListLang.Text

/-- The last `width` hexadecimal digits of a number, in lower case. -/
def hex (width n : Nat) : List Char :=
  match width with
  | 0 => []
  | w + 1 => hex w (n / 16) ++ [Nat.digitChar (n % 16)]

/-- The letter that follows the backslash for the control characters that have one. -/
def controlLetter? (c : Char) : Option Char :=
  match c.toNat with
  | 7 => some 'a'
  | 8 => some 'b'
  | 9 => some 't'
  | 10 => some 'n'
  | 11 => some 'v'
  | 12 => some 'f'
  | 13 => some 'r'
  | _ => none

def escape (c : Char) : List Char :=
  if c = '"' || c = '\\' then ['\\', c]
  else if isPrintable c then [c]
  else match controlLetter? c with
    | some l => ['\\', l]
    | none =>
      if c.toNat < 0x20 || c.toNat = 0x7F then '\\' :: 'x' :: hex 2 c.toNat
      else if c.toNat < 0x10000 then '\\' :: 'u' :: hex 4 c.toNat
      else '\\' :: 'U' :: hex 8 c.toNat

def quoteChars (cs : List Char) : List Char := '"' :: cs.flatMap escape ++ ['"']

def quote (s : String) : String := String.ofList (quoteChars s.toList)

/-- Bytes as they stand between the quotes. One that is part of no valid sequence is shown by its
number. -/
def escapeBytes : List UInt8 → List Char
  | [] => []
  | a :: rest =>
    match sequence? (a :: rest) with
    | some (c, more) => escape c ++ escapeBytes (rest.drop more)
    | none => '\\' :: 'x' :: hex 2 a.toNat ++ escapeBytes rest
termination_by bytes => bytes.length
decreasing_by
  all_goals simp only [List.length_cons, List.length_drop]; omega

def quoteBytes (bytes : List UInt8) : String := String.ofList ('"' :: escapeBytes bytes ++ ['"'])

end ListLang.Text
