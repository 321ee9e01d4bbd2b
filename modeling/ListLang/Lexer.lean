import ListLang.Glyph
import ListLang.ReadError

/-! From glyphs to tokens. The glyphs are cut from the left into pieces, each as long as its class
allows: a token, a character that belongs to no token, or a string that never ends. Spaces are
dropped. -/

namespace ListLang

inductive Piece where
  | token (t : Token)
  | invalid (t : Token)
  | unterminated (pos : Position)
  deriving DecidableEq

def isWordBody (c : Char) : Bool := c.isAlpha || c = '-'

def isNumericBody (c : Char) : Bool := c.isDigit || c = '.'

/-- The characters that are tokens by themselves. A minus may also start a number. -/
def markKind? : Char → Option TokenKind
  | '(' => some .openList
  | ')' => some .closeList
  | '+' => some .plus
  | '*' => some .star
  | '/' => some .slash
  | '%' => some .percent
  | '\'' => some .quote
  | _ => none

/-- The token that starts at `g` and goes on as long as `body` allows, and what is left. -/
def cutRun (kind : TokenKind) (body : Char → Bool) (g : Glyph) (rest : List Glyph) :
    Piece × List Glyph :=
  (.token ⟨kind, Glyph.text (g :: rest.takeWhile fun h => body h.char), g.pos⟩,
    rest.dropWhile fun h => body h.char)

/-- The string that `g` opens, both quotes included, and what is left. -/
def cutString (g : Glyph) (rest : List Glyph) : Piece × List Glyph :=
  match rest.dropWhile fun h => h.char != '"' with
  | [] => (.unterminated g.pos, [])
  | q :: left =>
    (.token ⟨.text, Glyph.text (g :: (rest.takeWhile fun h => h.char != '"') ++ [q]), g.pos⟩, left)

/-- The piece that starts at `g`, which is no space, and what is left. -/
def cut (g : Glyph) (rest : List Glyph) : Piece × List Glyph :=
  match markKind? g.char with
  | some kind => (.token ⟨kind, Glyph.text [g], g.pos⟩, rest)
  | none =>
    if g.char = '"' then cutString g rest
    else if g.char.isDigit then cutRun .numeric isNumericBody g rest
    else if g.char = '-' then
      if (rest.head?.map fun h => h.char.isDigit) = some true
        then cutRun .numeric isNumericBody g rest
      else (.token ⟨.minus, Glyph.text [g], g.pos⟩, rest)
    else if g.char.isAlpha then cutRun .word isWordBody g rest
    else (.invalid ⟨.invalid, Glyph.text [g], g.pos⟩, rest)

theorem cutRun_length (kind : TokenKind) (body : Char → Bool) (g : Glyph) (rest : List Glyph) :
    (cutRun kind body g rest).2.length ≤ rest.length :=
  (List.dropWhile_sublist _).length_le

theorem cutString_length (g : Glyph) (rest : List Glyph) :
    (cutString g rest).2.length ≤ rest.length := by
  have h := (List.dropWhile_sublist (l := rest) fun h => h.char != '"').length_le
  unfold cutString
  split
  · simp
  · rename_i heq
    rw [heq] at h
    exact Nat.le_of_succ_le h

theorem cut_length (g : Glyph) (rest : List Glyph) : (cut g rest).2.length ≤ rest.length := by
  unfold cut
  split
  · exact Nat.le_refl _
  · split
    · exact cutString_length g rest
    · split
      · exact cutRun_length ..
      · split
        · split
          · exact cutRun_length ..
          · exact Nat.le_refl _
        · split
          · exact cutRun_length ..
          · exact Nat.le_refl _

def pieces : List Glyph → List Piece
  | [] => []
  | g :: rest =>
    if g.char = ' ' then pieces rest
    else (cut g rest).1 :: pieces (cut g rest).2
termination_by gs => gs.length
decreasing_by
  · simp
  · simpa using Nat.lt_succ_of_le (cut_length g rest)

def Piece.token? : Piece → Option Token
  | .token t => some t
  | _ => none

def Piece.invalid? : Piece → Option Token
  | .invalid t => some t
  | _ => none

def Piece.unterminated? : Piece → Option Position
  | .unterminated p => some p
  | _ => none

/-- A string that never ends is reported before characters that belong nowhere. -/
def tokensOf (ps : List Piece) : Except ReadError (List Token) :=
  match ps.findSome? Piece.unterminated? with
  | some p => .error (.unterminatedText p)
  | none =>
    let bad := ps.filterMap Piece.invalid?
    if bad.isEmpty then .ok (ps.filterMap Piece.token?) else .error (.invalidContent bad)

/-- The tokens of a text, closed by a token for its end. -/
def tokenize (text : List Char) : Except ReadError (List Token) :=
  match tokensOf (pieces (glyphs text)) with
  | .error e => .error e
  | .ok ts => .ok (ts ++ [⟨.endOfText, "", endPosition text⟩])

end ListLang
