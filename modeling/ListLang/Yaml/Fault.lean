import ListLang.Number.Decimal

/-! What can be wrong with a YAML text, and how it is told. -/

namespace ListLang.Yaml

inductive Fault where
  | controlCharacter
  | leadingOctet
  | incompleteSequence
  | trailingOctet
  | sequenceLength
  | noCharacter
  -- tokens
  | strayCharacter
  | keyWithoutColon
  | tooDeep
  | entryNotAllowed
  | keyNotAllowed
  | valueNotAllowed
  | directiveName
  | directiveNameEnd
  | unknownDirective
  | lineNotEnded
  | versionPoint
  | versionTooLong
  | versionNumber
  | whitespaceExpected
  | whitespaceOrBreakExpected
  | anchorName
  | tagAngle
  | tagMark
  | tagSuffix
  | tagOctet
  | tagLeadingOctet
  | tagTrailingOctet
  | zeroIndentation
  | tabForIndentation
  | markInQuotes
  | unclosedQuote
  | unknownEscape
  | escapeDigits
  | escapeValue
  | tabInPlain
  -- structure
  | documentStart
  | duplicateVersion
  | incompatibleVersion
  | duplicateHandle
  | undefinedHandle
  | nodeContent
  | blockItem
  | blockKey
  | flowItemEnd
  | flowEntryEnd
  | unknownAnchor (name : String)
  deriving DecidableEq

def Fault.text : Fault → String
  | controlCharacter => "control characters are not allowed"
  | leadingOctet => "invalid leading UTF-8 octet"
  | incompleteSequence => "incomplete UTF-8 octet sequence"
  | trailingOctet => "invalid trailing UTF-8 octet"
  | sequenceLength => "invalid length of a UTF-8 sequence"
  | noCharacter => "invalid Unicode character"
  | strayCharacter => "found character that cannot start any token"
  | keyWithoutColon => "could not find expected ':'"
  | tooDeep => "exceeded max depth of 10000"
  | entryNotAllowed => "block sequence entries are not allowed in this context"
  | keyNotAllowed => "mapping keys are not allowed in this context"
  | valueNotAllowed => "mapping values are not allowed in this context"
  | directiveName => "could not find expected directive name"
  | directiveNameEnd => "found unexpected non-alphabetical character"
  | unknownDirective => "found unknown directive name"
  | lineNotEnded => "did not find expected comment or line break"
  | versionPoint => "did not find expected digit or '.' character"
  | versionTooLong => "found extremely long version number"
  | versionNumber => "did not find expected version number"
  | whitespaceExpected => "did not find expected whitespace"
  | whitespaceOrBreakExpected => "did not find expected whitespace or line break"
  | anchorName => "did not find expected alphabetic or numeric character"
  | tagAngle => "did not find the expected '>'"
  | tagMark => "did not find expected '!'"
  | tagSuffix => "did not find expected tag URI"
  | tagOctet => "did not find URI escaped octet"
  | tagLeadingOctet => "found an incorrect leading UTF-8 octet"
  | tagTrailingOctet => "found an incorrect trailing UTF-8 octet"
  | zeroIndentation => "found an indentation indicator equal to 0"
  | tabForIndentation => "found a tab character where an indentation space is expected"
  | markInQuotes => "found unexpected document indicator"
  | unclosedQuote => "found unexpected end of stream"
  | unknownEscape => "found unknown escape character"
  | escapeDigits => "did not find expected hexdecimal number"
  | escapeValue => "found invalid Unicode character escape code"
  | tabInPlain => "found a tab character that violates indentation"
  | documentStart => "did not find expected <document start>"
  | duplicateVersion => "found duplicate %YAML directive"
  | incompatibleVersion => "found incompatible YAML document"
  | duplicateHandle => "found duplicate %TAG directive"
  | undefinedHandle => "found undefined tag handle"
  | nodeContent => "did not find expected node content"
  | blockItem => "did not find expected '-' indicator"
  | blockKey => "did not find expected key"
  | flowItemEnd => "did not find expected ',' or ']'"
  | flowEntryEnd => "did not find expected ',' or '\x7d'"
  | unknownAnchor name => "unknown anchor '" ++ name ++ "' referenced"

/-- A fault with the line where its construct began and the line where it was found, both counted
from zero. -/
structure Problem where
  fault : Fault
  /-- Whether a token is at fault, and not the order of tokens. -/
  inToken : Bool
  began : Nat
  found : Nat

def Problem.plain (fault : Fault) : Problem := ⟨fault, false, 0, 0⟩

/-- The line where the construct began is told, or the line of the fault when the construct began on
the first line; the first line itself is not. Only the faults of tokens count it as line 1. -/
def Problem.message (p : Problem) : String :=
  let line := if p.began = 0 then p.found else p.began
  if line = 0 then p.fault.text
  else "line " ++ natText (if p.inToken then line + 1 else line) ++ ": " ++ p.fault.text

end ListLang.Yaml
