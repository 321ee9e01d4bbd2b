import ListLang.Proofs.Lexeme

/-! A text is made of tokens exactly when it can be written as lexemes and spaces in which no lexeme
could go on, and its tokens are then these lexemes in order. -/

namespace ListLang

/-- Characters written as lexemes and spaces. What comes after a lexeme is not absorbed by it. -/
inductive Spells : List Char → List (TokenKind × List Char) → Prop where
  | nil : Spells [] []
  | space {cs : List Char} {ls : List (TokenKind × List Char)} :
      Spells cs ls → Spells (' ' :: cs) ls
  | lexeme {k : TokenKind} {w cs : List Char} {ls : List (TokenKind × List Char)} : Lexeme k w →
      (∀ c ∈ cs.head?, k.absorbs c = false) → Spells cs ls → Spells (w ++ cs) ((k, w) :: ls)

/-- What a token says apart from its place. -/
def Token.lexeme (t : Token) : TokenKind × List Char := (t.kind, t.text.toList)

theorem toList_glyphText (gs : List Glyph) : (Glyph.text gs).toList = gs.map Glyph.char :=
  String.toList_ofList

theorem eq_map_token {ps : List Piece} (hu : ∀ p ∈ ps, p.unterminated? = none)
    (hi : ∀ p ∈ ps, p.invalid? = none) : ps = (ps.filterMap Piece.token?).map Piece.token := by
  induction ps with
  | nil => rfl
  | cons p ps ih =>
    have ih := ih (fun q hq => hu q (List.mem_cons_of_mem _ hq))
      (fun q hq => hi q (List.mem_cons_of_mem _ hq))
    cases p with
    | token t => exact congrArg (Piece.token t :: ·) ih
    | invalid t => cases hi _ List.mem_cons_self
    | unterminated q => cases hu _ List.mem_cons_self

section Tokens

variable (ts : List Token)

theorem unterminated?_tokens : (ts.map Piece.token).findSome? Piece.unterminated? = none := by
  simp [List.findSome?_eq_none_iff, Piece.unterminated?]

theorem invalid?_tokens : (ts.map Piece.token).filterMap Piece.invalid? = [] := by
  simp [List.filterMap_eq_nil_iff, Piece.invalid?]

theorem token?_tokens : (ts.map Piece.token).filterMap Piece.token? = ts := by
  rw [List.filterMap_map]
  exact List.filterMap_some

end Tokens

/-- A row of pieces passes when all of them are tokens. -/
theorem tokensOf_eq_ok {ps : List Piece} {ts : List Token} :
    tokensOf ps = .ok ts ↔ ps = ts.map Piece.token := by
  constructor
  · intro h
    unfold tokensOf at h
    split at h
    · cases h
    · rename_i hu
      simp only at h
      split at h
      · rename_i hb
        obtain rfl := Except.ok.inj h
        rw [List.isEmpty_iff, List.filterMap_eq_nil_iff] at hb
        exact eq_map_token (List.findSome?_eq_none_iff.1 hu) hb
      · cases h
  · rintro rfl
    rw [tokensOf, unterminated?_tokens, invalid?_tokens, token?_tokens]
    rfl

theorem pieces_of_spells {cs : List Char} {ls : List (TokenKind × List Char)} (h : Spells cs ls) :
    ∀ gs : List Glyph, gs.map Glyph.char = cs →
      ∃ ts : List Token, pieces gs = ts.map Piece.token ∧ ts.map Token.lexeme = ls := by
  induction h with
  | nil =>
    intro gs hgs
    obtain rfl := List.map_eq_nil_iff.1 hgs
    exact ⟨[], by rw [pieces]; rfl, rfl⟩
  | space _ ih =>
    intro gs hgs
    obtain ⟨g, gs, rfl, hg, hgs⟩ := List.map_eq_cons_iff.1 hgs
    rw [pieces, if_pos hg]
    exact ih gs hgs
  | @lexeme k w cs ls hl ha _ ih =>
    intro gs hgs
    obtain ⟨us, rest, rfl, hus, hrest⟩ := List.map_eq_append_iff.1 hgs
    obtain ⟨c, w', rfl⟩ := List.exists_cons_of_ne_nil hl.ne_nil
    obtain ⟨g, us, rfl, hg, hus'⟩ := List.map_eq_cons_iff.1 hus
    have ha : ∀ h ∈ rest.head?, k.absorbs h.char = false := by
      intro h hh
      refine ha _ ?_
      rw [← hrest, List.head?_map, Option.mem_def.1 hh]
      rfl
    have hcut := cut_of_lexeme hl hus ha
    obtain ⟨ts, hts, hls⟩ := ih rest hrest
    refine ⟨⟨k, Glyph.text (g :: us), g.pos⟩ :: ts, ?_, ?_⟩
    · rw [List.cons_append, pieces, if_neg (hg ▸ hl.head_ne_space), hcut, hts]
      rfl
    · rw [List.map_cons, hls, Token.lexeme, toList_glyphText, hus]

theorem spells_of_pieces {gs : List Glyph} {ts : List Token} (h : pieces gs = ts.map Piece.token)
    (hn : ∀ g ∈ gs, g.char ≠ '\n') : Spells (gs.map Glyph.char) (ts.map Token.lexeme) := by
  fun_induction pieces gs generalizing ts with
  | case1 =>
    obtain rfl := List.map_eq_nil_iff.1 h.symm
    exact .nil
  | case2 g rest hg ih =>
    rw [List.map_cons, hg]
    exact .space (ih h fun g hg => hn g (List.mem_cons_of_mem _ hg))
  | case3 g rest hg ih =>
    obtain ⟨t, ts, rfl, ht, hts⟩ := List.map_eq_cons_iff.1 h.symm
    have hcut := cutsLexeme_cut (g := g) fun h hh => hn h (List.mem_cons_of_mem _ hh)
    rw [show cut g rest = (Piece.token t, (cut g rest).2) by rw [ht]] at hcut
    obtain ⟨us, hrest, htext, hl, ha⟩ := hcut
    have hn' : ∀ h ∈ (cut g rest).2, h.char ≠ '\n' := by
      intro h hh
      refine hn h (List.mem_cons_of_mem _ ?_)
      rw [hrest]
      exact List.mem_append_right _ hh
    have hs := ih hts.symm hn'
    have hkind : t.lexeme = (t.kind, (g :: us).map Glyph.char) := by
      rw [Token.lexeme, htext, toList_glyphText]
    rw [List.map_cons (l := ts), hkind]
    have hsplit : (g :: rest).map Glyph.char =
        (g :: us).map Glyph.char ++ ((cut g rest).2).map Glyph.char := by
      rw [← List.map_append, List.cons_append, ← hrest]
    rw [hsplit]
    refine .lexeme hl (fun c hc => ?_) hs
    rw [List.head?_map] at hc
    obtain ⟨h, hh, rfl⟩ := Option.map_eq_some_iff.1 hc
    exact ha h hh

theorem glyphsFrom_ne_newline (line column : Nat) (cs : List Char) :
    ∀ g ∈ glyphsFrom line column cs, g.char ≠ '\n' := by
  fun_induction glyphsFrom line column cs with
  | case1 => simp
  | case2 line column cs ih => exact ih
  | case3 line column cs ih => exact ih
  | case4 line column c cs hc _ ih =>
    intro g hg
    rcases List.mem_cons.1 hg with rfl | hg
    · exact hc
    · exact ih g hg

/-- Without line feeds every character is a glyph. -/
theorem glyphsFrom_map_char (line column : Nat) (cs : List Char) (h : '\n' ∉ cs) :
    (glyphsFrom line column cs).map Glyph.char = cs := by
  fun_induction glyphsFrom line column cs with
  | case1 => rfl
  | case2 line column cs ih => simp at h
  | case3 line column cs ih => simp at h
  | case4 line column c cs _ _ ih =>
    rw [List.map_cons, ih fun hm => h (List.mem_cons_of_mem _ hm)]

/-- The token that closes every text. -/
def endToken (text : List Char) : Token := ⟨.endOfText, "", endPosition text⟩

theorem tokenize_eq_ok {text : List Char} {us : List Token} :
    tokenize text = .ok us ↔ ∃ ts, pieces (glyphs text) = ts.map Piece.token ∧ us =
      ts ++ [endToken text] := by
  unfold tokenize
  cases h : tokensOf (pieces (glyphs text)) with
  | error e =>
    simp only [reduceCtorEq, false_iff, not_exists, not_and]
    intro ts hts
    rw [tokensOf_eq_ok.2 hts] at h
    cases h
  | ok ts =>
    simp only [Except.ok.injEq]
    constructor
    · intro hus
      exact ⟨ts, tokensOf_eq_ok.1 h, hus.symm⟩
    · rintro ⟨ts', hts', rfl⟩
      rw [tokensOf_eq_ok.2 hts'] at h
      cases h
      rfl

theorem tokenize_eq_error {text : List Char} {e : ReadError} :
    tokenize text = .error e ↔ tokensOf (pieces (glyphs text)) = .error e := by
  unfold tokenize
  cases tokensOf (pieces (glyphs text)) <;> simp

/-- The tokens of a text are lexemes that fill it up to spaces and line ends. -/
theorem spells_of_tokenize {text : List Char} {us : List Token} (h : tokenize text = .ok us) :
    ∃ ts, us = ts ++ [endToken text] ∧ Spells ((glyphs text).map Glyph.char)
      (ts.map Token.lexeme) := by
  obtain ⟨ts, hts, rfl⟩ := tokenize_eq_ok.1 h
  exact ⟨ts, rfl, spells_of_pieces hts (glyphsFrom_ne_newline 0 0 text)⟩

/-- A text that is written as lexemes and spaces is made of tokens, which are these lexemes. -/
theorem tokenize_of_spells {text : List Char} {ls : List (TokenKind × List Char)}
    (h : Spells text ls)
    (hn : '\n' ∉ text) : ∃ ts, tokenize text = .ok (ts ++ [endToken text]) ∧
      ts.map Token.lexeme = ls := by
  obtain ⟨ts, hts, hls⟩ := pieces_of_spells h (glyphs text) (glyphsFrom_map_char 0 0 text hn)
  exact ⟨ts, tokenize_eq_ok.2 ⟨ts, hts, rfl⟩, hls⟩

end ListLang
