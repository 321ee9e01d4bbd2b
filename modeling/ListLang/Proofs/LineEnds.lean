import ListLang.Proofs.Concatenation
import ListLang.Proofs.Places

/-! Line ends are transparent. Texts that are the same without their line ends hold the same tokens
and expressions, up to places, or are refused for the same reason. -/

namespace ListLang

/-! Without places. Reading does not look at them, so it may as well be done where all places are
the same. -/

/-- The place of everything that is to be compared apart from its place. -/
def nowhere (_ : Position) : Position := ⟨0, 0⟩

/-- Glyphs with the same characters are cut alike. -/
theorem pieces_nowhere {gs gs' : List Glyph} (h : gs.map Glyph.char = gs'.map Glyph.char) :
    (pieces gs).map (Piece.move nowhere) = (pieces gs').map (Piece.move nowhere) := by
  have hplaced : ∀ gs : List Glyph, gs.map (Glyph.move nowhere) =
      glyphsAt ⟨0, 0⟩ (gs.map Glyph.char) := by
    intro gs
    rw [glyphsAt, List.map_map]
    rfl
  rw [← pieces_move, ← pieces_move, hplaced, hplaced, h]

theorem tokensOf_move (f : Position → Position) (ps : List Piece) :
    tokensOf (ps.map (Piece.move f)) = moved f (List.map (Token.move f)) (tokensOf ps) :=
  tokensOf_tokens_append f [] ps

theorem build_move (f : Position → Position) (ts : List Token) :
    build [] [] (ts.map (Token.move f)) = moved f (List.map (Expr.move f)) (build [] [] ts) := by
  have hbeside : Beside f [] [] [] [] [] := .top []
  exact build_beside f ts hbeside

/-- What is the same after moving was the same before, up to places. -/
theorem moved_eq {α : Type} {f : Position → Position} {g : α → α} {x y : Except ReadError α}
    (h : moved f g x = moved f g y) :
    (∀ a, x = .ok a → ∃ b, y = .ok b ∧ g a = g b) ∧ ∀ e, x = .error e → ∃ e', y = .error e' ∧
      e.move f = e'.move f := by
  refine ⟨?_, ?_⟩
  · rintro a rfl
    cases y with
    | ok b => exact ⟨b, rfl, Except.ok.inj h⟩
    | error e' => cases h
  · rintro e rfl
    cases y with
    | ok b => cases h
    | error e' => exact ⟨e', rfl, Except.error.inj h⟩

section Strip

variable {text text' : List Char} (h : strip text = strip text')
include h

theorem tokensOf_nowhere :
    moved nowhere (List.map (Token.move nowhere)) (tokensOf (pieces (glyphs text))) =
    moved nowhere (List.map (Token.move nowhere)) (tokensOf (pieces (glyphs text'))) := by
  rw [← tokensOf_move, ← tokensOf_move, pieces_nowhere]
  rw [glyphs, glyphs, glyphsFrom_map_strip, glyphsFrom_map_strip, h]

theorem tokenize_nowhere : moved nowhere (List.map (Token.move nowhere)) (tokenize text) =
    moved nowhere (List.map (Token.move nowhere)) (tokenize text') := by
  obtain ⟨haccepted, hrefused⟩ := moved_eq (tokensOf_nowhere h)
  unfold tokenize
  cases hts : tokensOf (pieces (glyphs text)) with
  | error e =>
    obtain ⟨e', he', hmove⟩ := hrefused e hts
    simp only [he', moved, hmove]
  | ok ts =>
    obtain ⟨us, hus, hmove⟩ := haccepted ts hts
    simp only [hus, moved, List.map_append, hmove]
    rfl

theorem read_nowhere : moved nowhere (List.map (Expr.move nowhere)) (read text) =
    moved nowhere (List.map (Expr.move nowhere)) (read text') := by
  obtain ⟨haccepted, hrefused⟩ := moved_eq (tokensOf_nowhere h)
  rw [read_eq_build, read_eq_build]
  cases hts : tokensOf (pieces (glyphs text)) with
  | error e =>
    obtain ⟨e', he', hmove⟩ := hrefused e hts
    simp only [he', moved, hmove]
  | ok ts =>
    obtain ⟨us, hus, hmove⟩ := haccepted ts hts
    simp only [hus, ← build_move, hmove]

end Strip

/-! What does not depend on places. -/

/-- The characters for which a text is refused as invalid. -/
def ReadError.invalidTexts : ReadError → List String
  | .invalidContent ts => ts.map Token.text
  | _ => []

theorem ReadError.invalidTexts_move (f : Position → Position) (e : ReadError) :
    (e.move f).invalidTexts = e.invalidTexts := by
  cases e with
  | invalidContent ts =>
    rw [ReadError.move, invalidTexts, invalidTexts, List.map_map]
    rfl
  | _ => rfl

theorem lexeme_map_move (f : Position → Position) (ts : List Token) :
    (ts.map (Token.move f)).map Token.lexeme = ts.map Token.lexeme := by
  rw [List.map_map]
  rfl

namespace Expr

variable {f : Position → Position}

mutual

theorem alike_of_move : ∀ {a b : Expr}, move f a = move f b → Alike a b
  | atom t, atom u, h => by
    have htoken : t.move f = u.move f := Expr.atom.inj h
    have hkind : (t.move f).kind = (u.move f).kind := congrArg Token.kind htoken
    have htext : (t.move f).text = (u.move f).text := congrArg Token.text htoken
    exact ⟨hkind, htext⟩
  | list _ as, list _ bs, h => by
    have hall : AlikeAll as bs := alikeAll_of_moveAll (Expr.list.inj h).2
    exact hall
  | atom _, list _ _, h => by cases h
  | list _ _, atom _, h => by cases h

theorem alikeAll_of_moveAll : ∀ {as bs : List Expr}, moveAll f as = moveAll f bs → AlikeAll as bs
  | [], [], _ => trivial
  | a :: as, b :: bs, h =>
    ⟨alike_of_move (List.cons.inj h).1, alikeAll_of_moveAll (List.cons.inj h).2⟩
  | [], _ :: _, h => by cases h
  | _ :: _, [], h => by cases h

end

end Expr

/-- The same kind of error, for the same characters. -/
def ReadError.Alike (e e' : ReadError) : Prop := e.kind = e'.kind ∧ e.invalidTexts = e'.invalidTexts

theorem ReadError.alike_of_move {f : Position → Position} {e e' : ReadError}
    (h : e.move f = e'.move f) :
    e.Alike e' := by
  constructor
  · rw [← e.kind_move f, h, e'.kind_move f]
  · rw [← e.invalidTexts_move f, h, e'.invalidTexts_move f]

/-- The second source is read as the first: to tokens of the same kinds and texts, and to the same
expressions with the same kinds throughout, or refused for the same kind of error and the same
characters. -/
structure ReadsAlike (source source' : List UInt8) : Prop where
  tokens : ∀ ts, tokenize (Text.decode source) = .ok ts →
    ∃ ts', tokenize (Text.decode source') = .ok ts' ∧ ts.map Token.lexeme = ts'.map Token.lexeme
  refused : ∀ e, tokenize (Text.decode source) = .error e →
    ∃ e', tokenize (Text.decode source') = .error e' ∧ e.Alike e'
  forest : ∀ es, readBytes source = .ok es → ∃ es', readBytes source' = .ok es' ∧
    Expr.sameAll es es' = true ∧
    (Expr.nodesAll es).map Expr.kind = (Expr.nodesAll es').map Expr.kind
  unread : ∀ e, readBytes source = .error e → ∃ e', readBytes source' = .error e' ∧ e.Alike e'

theorem readsAlike_of_strip_eq {source source' : List UInt8}
    (h : strip (Text.decode source) = strip (Text.decode source')) : ReadsAlike source source' where
  tokens ts hts := by
    obtain ⟨ts', hts', heq⟩ := (moved_eq (tokenize_nowhere h)).1 ts hts
    exact ⟨ts', hts', by rw [← lexeme_map_move nowhere, heq, lexeme_map_move]⟩
  refused e he := by
    obtain ⟨e', he', hmove⟩ := (moved_eq (tokenize_nowhere h)).2 e he
    exact ⟨e', he', ReadError.alike_of_move hmove⟩
  forest es hes := by
    obtain ⟨es', hes', heq⟩ := (moved_eq (read_nowhere h)).1 es hes
    rw [← Expr.moveAll_eq_map, ← Expr.moveAll_eq_map] at heq
    have halike := Expr.alikeAll_of_moveAll heq
    exact ⟨es', hes', halike.sameAll_eq, halike.nodesAll_kind⟩
  unread e he := by
    obtain ⟨e', he', hmove⟩ := (moved_eq (read_nowhere h)).2 e he
    exact ⟨e', he', ReadError.alike_of_move hmove⟩

/-- A source without its line ends. -/
def bare (source : List UInt8) : List UInt8 :=
  Text.bytes (String.ofList (strip (Text.decode source)))

theorem decode_bare (source : List UInt8) :
    Text.decode (bare source) = strip (Text.decode source) := by
  rw [bare, Text.decode_bytes, String.toList_ofList]

/-- A line feed is lost anywhere but after a carriage return, which it would take with it. -/
theorem strip_insert {before : List Char} (h : before.getLast? ≠ some '\r') (after : List Char) :
    strip (before ++ '\n' :: after) = strip (before ++ after) := by
  have hparted : ∀ cs : List Char, before.getLast? = some '\r' → cs.head? ≠ some '\n' :=
    fun _ hlast => absurd hlast h
  rw [strip_append (hparted _), strip_append (hparted _), strip_of_endsLine (Or.inl rfl)]

/-- A source is read as it is without its line ends, and so it is after a line feed is put in
anywhere but after a carriage return, within tokens too. -/
theorem line_ends_are_transparent (source : List UInt8) :
    ReadsAlike source (bare source) ∧
    ∀ before after edited, Text.decode source = before ++ after → before.getLast? ≠ some '\r' →
      Text.decode edited = before ++ '\n' :: after → ReadsAlike source edited := by
  refine ⟨readsAlike_of_strip_eq ?_,
    fun before after edited hsource hlast hedited => readsAlike_of_strip_eq ?_⟩
  · rw [decode_bare, strip_strip]
  · rw [hsource, hedited, strip_insert hlast]

/-- Line ends in a word, between a dash and its digit, and in a string beside a carriage return that
stays. -/
def manyLines : List UInt8 := Text.bytes "(a-\r\n\nb -\n1 \"x\r\r\ny\")"

/-- A tab, and a carriage return that stays before one that goes. -/
def tabbed : List UInt8 := Text.bytes "1\n.\t\r\r\n"

theorem line_ends_are_transparent_manyLines :
    (∃ es es', readBytes manyLines = .ok es ∧ readBytes (bare manyLines) = .ok es' ∧
      Expr.sameAll es es' = true) ∧
    (∃ e e', tokenize (Text.decode tabbed) = .error e ∧ tokenize (Text.decode (bare tabbed)) =
      .error e' ∧
      e.invalidTexts = ["\t", "\r"] ∧ e.Alike e') ∧
    ∃ ts ts', tokenize (Text.decode (Text.bytes "(-1 22)")) = .ok ts ∧
      tokenize (Text.decode (Text.bytes "(-\n1 22)")) = .ok ts' ∧ ts.map Token.lexeme =
        ts'.map Token.lexeme := by
  have hread : (readBytes manyLines).isOk = true := by decide +kernel
  have hrefused : tokenize (Text.decode tabbed) =
      .error (.invalidContent [⟨.invalid, "\t", ⟨2, 2⟩⟩, ⟨.invalid, "\r", ⟨2, 3⟩⟩]) := by
        decide +kernel
  have hnumber : (tokenize (Text.decode (Text.bytes "(-1 22)"))).isOk = true := by decide +kernel
  have hsource : Text.decode (Text.bytes "(-1 22)") = "(-".toList ++ "1 22)".toList := by
    decide +kernel
  have hedited : Text.decode (Text.bytes "(-\n1 22)") = "(-".toList ++ '\n' :: "1 22)".toList := by
    decide +kernel
  obtain ⟨es, hes⟩ := exists_of_isOk hread
  obtain ⟨ts, hts⟩ := exists_of_isOk hnumber
  obtain ⟨es', hes', hsame, -⟩ := (line_ends_are_transparent manyLines).1.forest es hes
  obtain ⟨e', he', halike⟩ := (line_ends_are_transparent tabbed).1.refused _ hrefused
  have hinserted :=
    (line_ends_are_transparent (Text.bytes "(-1 22)")).2 _ _ _ hsource (by decide) hedited
  obtain ⟨ts', hts', hlexemes⟩ := hinserted.tokens ts hts
  exact ⟨⟨es, es', hes, hes', hsame⟩, ⟨_, e', hrefused, he', rfl, halike⟩, ts, ts', hts,
    hts', hlexemes⟩

end ListLang
