import ListLang.Token

/-! Glyphs: the characters of a source text that count, each with its place. Line feeds, and
carriage returns right before a line feed, only move the place; everything else is a glyph. -/

namespace ListLang

structure Glyph where
  char : Char
  pos : Position
  deriving DecidableEq

/-- The glyphs of a text that starts after `line` line feeds and `column` characters on its line. -/
def glyphsFrom (line column : Nat) : List Char → List Glyph
  | [] => []
  | '\n' :: cs => glyphsFrom (line + 1) 0 cs
  | '\r' :: '\n' :: cs => glyphsFrom (line + 1) 0 cs
  | c :: cs => ⟨c, ⟨line + 1, column + 1⟩⟩ :: glyphsFrom line (column + 1) cs

/-- The place just past such a text. -/
def endFrom (line column : Nat) : List Char → Position
  | [] => ⟨line + 1, column + 1⟩
  | '\n' :: cs => endFrom (line + 1) 0 cs
  | '\r' :: '\n' :: cs => endFrom (line + 1) 0 cs
  | _ :: cs => endFrom line (column + 1) cs

def glyphs (text : List Char) : List Glyph := glyphsFrom 0 0 text

def endPosition (text : List Char) : Position := endFrom 0 0 text

def Glyph.text (gs : List Glyph) : String := String.ofList (gs.map Glyph.char)

end ListLang
