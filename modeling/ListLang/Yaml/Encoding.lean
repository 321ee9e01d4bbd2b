import ListLang.Text.Decode
import ListLang.Yaml.Fault

/-! The bytes of a YAML text. They have to be valid UTF-8: no character stands in for one that is
not. -/

namespace ListLang.Yaml

def sequenceWidth? (a : UInt8) : Option Nat :=
  if a < 0x80 then some 1
  else if a < 0xC0 then none
  else if a < 0xE0 then some 2
  else if a < 0xF0 then some 3
  else if a < 0xF8 then some 4
  else none

/-- Whether a shorter sequence has the same value as one that starts with these bytes. -/
def isOverlong (a b : UInt8) : Bool := a < 0xC2 || (a = 0xE0 && b < 0xA0) || (a = 0xF0 && b < 0x90)

/-- What is wrong with bytes that start with no valid sequence. -/
def octetFault (a : UInt8) (rest : List UInt8) : Fault :=
  match sequenceWidth? a with
  | none => .leadingOctet
  | some width =>
    if rest.length + 1 < width then .incompleteSequence
    else if !(rest.take (width - 1)).all Text.isContinuation then .trailingOctet
    else if isOverlong a (rest.headD 0) then .sequenceLength
    else .noCharacter

def decode : List UInt8 → Except Fault (List Char)
  | [] => .ok []
  | a :: rest =>
    match Text.sequence? (a :: rest) with
    | some (c, more) => (decode (rest.drop more)).map (c :: ·)
    | none => .error (octetFault a rest)
termination_by bytes => bytes.length
decreasing_by
  simp only [List.length_cons, List.length_drop]
  omega

end ListLang.Yaml
