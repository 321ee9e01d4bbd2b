import ListLang.Yaml.Cursor

/-! The tokens of a YAML text. Where a block starts and ends is a token too, and so is the place
before a key that nothing else marks. -/

namespace ListLang.Yaml

inductive TokenKind where
  | streamStart
  | streamEnd
  | version (major minor : Nat)
  /-- A handle for tags, and the text that it stands for. -/
  | handle (name expansion : String)
  | documentStart
  | documentEnd
  | blockSequence
  | blockMapping
  | blockEnd
  | flowSequence
  | flowSequenceEnd
  | flowMapping
  | flowMappingEnd
  | blockEntry
  | flowEntry
  | key
  | value
  | reference (name : String)
  | anchor (name : String)
  | tag (handle rest : String)
  | scalar (isPlain : Bool) (text : String)
  deriving DecidableEq

structure Token where
  kind : TokenKind
  start : Position

end ListLang.Yaml
