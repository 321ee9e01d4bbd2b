import ListLang.Proofs.Spelling
import ListLang.Proofs.Utf8

/-! A text without its line ends is a row of lexemes and spaces in at most one way. It is made of
tokens exactly when there is such a way, and its tokens are then the lexemes of the row. -/

namespace ListLang

/-- A text without its line ends: line feeds go, and with each the carriage return right before
it. -/
def strip : List Char → List Char
  | [] => []
  | c :: cs => if c = '\n' ∨ c = '\r' ∧ cs.head? = some '\n' then strip cs else c :: strip cs

/-- The glyphs of a text are its characters without the line ends. -/
theorem glyphsFrom_map_strip (line column : Nat) (cs : List Char) :
    (glyphsFrom line column cs).map Glyph.char = strip cs := by
  fun_induction glyphsFrom line column cs with
  | case1 => rfl
  | case2 line column cs ih => simpa [strip] using ih
  | case3 line column cs ih => simpa [strip] using ih
  | case4 line column c cs hfeed hreturn ih =>
    have hkept : ¬(c = '\n' ∨ c = '\r' ∧ cs.head? = some '\n') := by
      rintro (h | ⟨h, hhead⟩)
      · exact hfeed h
      · obtain ⟨cs', rfl⟩ := List.head?_eq_some_iff.1 hhead
        exact hreturn cs' h rfl
    rw [List.map_cons, ih, strip, if_neg hkept]

theorem newline_notMem_strip (cs : List Char) : '\n' ∉ strip cs := by
  rw [← glyphsFrom_map_strip 0 0]
  intro hm
  obtain ⟨g, hg, hchar⟩ := List.mem_map.1 hm
  exact glyphsFrom_ne_newline 0 0 cs g hg hchar

/-! Rows of lexemes and spaces. -/

/-- A part of a text: a lexeme with its kind, or a space. -/
inductive Stretch where
  | lexeme (kind : TokenKind) (word : List Char)
  | space
  deriving DecidableEq

def Stretch.chars : Stretch → List Char
  | lexeme _ w => w
  | space => [' ']

def Stretch.lexeme? : Stretch → Option (TokenKind × List Char)
  | lexeme k w => some (k, w)
  | space => none

/-- The grammar of each kind of token. A string is anything without double quotes, between two of
them. -/
def Grammatical (k : TokenKind) (w : List Char) : Prop :=
  if k = .text then ∃ inner, '"' ∉ inner ∧ w = '"' :: inner ++ ['"'] else Lexeme k w

/-- Lexemes and spaces side by side make up the text, and no lexeme could take in what follows
it. -/
structure Decomposes (text : List Char) (row : List Stretch) : Prop where
  covers : row.flatMap Stretch.chars = text
  grammatical : ∀ k w, .lexeme k w ∈ row → Grammatical k w
  maximal : ∀ before k w after, row = before ++ .lexeme k w :: after →
    ∀ c ∈ (after.flatMap Stretch.chars).head?, k.absorbs c = false

theorem Lexeme.grammatical {k : TokenKind} {w : List Char} (h : Lexeme k w) : Grammatical k w := by
  unfold Grammatical
  split
  · rename_i hk
    cases h with
    | @text inner hinner => exact ⟨inner, fun hm => (hinner _ hm).1 rfl, rfl⟩
    | _ => cases hk
  · exact h

/-- In a text without line ends what is grammatical is a lexeme. -/
theorem Grammatical.lexeme {k : TokenKind} {w : List Char} (h : Grammatical k w) (hn : '\n' ∉ w) :
    Lexeme k w := by
  unfold Grammatical at h
  split at h
  · rename_i hk
    obtain ⟨inner, hquote, rfl⟩ := h
    subst hk
    refine .text fun c hc => ⟨?_, ?_⟩
    · rintro rfl
      exact hquote hc
    · rintro rfl
      exact hn (by simp [hc])
  · exact h

namespace Decomposes

variable {text cs w : List Char} {row : List Stretch} {k : TokenKind}

theorem nil : Decomposes [] [] where
  covers := rfl
  grammatical := by simp
  maximal := by simp

theorem space (h : Decomposes cs row) : Decomposes (' ' :: cs) (.space :: row) where
  covers := by rw [List.flatMap_cons, h.covers]; rfl
  grammatical k w hm := by
    rcases List.mem_cons.1 hm with hm | hm
    · cases hm
    · exact h.grammatical k w hm
  maximal before k w after heq := by
    cases before with
    | nil => cases heq
    | cons first before => exact h.maximal before k w after (List.cons.inj heq).2

theorem lexeme (hl : Grammatical k w) (ha : ∀ c ∈ cs.head?, k.absorbs c = false)
    (h : Decomposes cs row) :
    Decomposes (w ++ cs) (.lexeme k w :: row) where
  covers := by rw [List.flatMap_cons, h.covers]; rfl
  grammatical k' w' hm := by
    rcases List.mem_cons.1 hm with hm | hm
    · cases hm
      exact hl
    · exact h.grammatical k' w' hm
  maximal before k' w' after heq := by
    cases before with
    | nil =>
      cases heq
      rwa [h.covers]
    | cons first before => exact h.maximal before k' w' after (List.cons.inj heq).2

/-- What follows the first stretch is decomposed too. -/
theorem rest {first : Stretch} (h : Decomposes text (first :: row)) :
    Decomposes (row.flatMap Stretch.chars) row where
  covers := rfl
  grammatical k w hm := h.grammatical k w (List.mem_cons_of_mem _ hm)
  maximal before k w after heq := h.maximal (first :: before) k w after (by rw [heq]; rfl)

theorem text_eq {first : Stretch} (h : Decomposes text (first :: row)) :
    text = first.chars ++ row.flatMap Stretch.chars := by
  rw [← h.covers, List.flatMap_cons]

/-- The first lexeme, which goes no further than it has to. -/
theorem first (hn : '\n' ∉ text) (h : Decomposes text (.lexeme k w :: row)) :
    Lexeme k w ∧ ∀ c ∈ (row.flatMap Stretch.chars).head?, k.absorbs c = false := by
  refine ⟨(h.grammatical k w List.mem_cons_self).lexeme fun hm => hn ?_, h.maximal [] k w row rfl⟩
  rw [h.text_eq]
  exact List.mem_append_left _ hm

theorem newline_notMem_rest {first : Stretch} (hn : '\n' ∉ text)
    (h : Decomposes text (first :: row)) :
    '\n' ∉ row.flatMap Stretch.chars := by
  intro hm
  rw [h.text_eq] at hn
  exact hn (List.mem_append_right _ hm)

theorem spells (hn : '\n' ∉ text) (h : Decomposes text row) :
    Spells text (row.filterMap Stretch.lexeme?) := by
  induction row generalizing text with
  | nil =>
    rw [← h.covers]
    exact .nil
  | cons first row ih =>
    have hrest := ih (h.newline_notMem_rest hn) h.rest
    rw [h.text_eq]
    cases first with
    | lexeme k w =>
      obtain ⟨hl, ha⟩ := h.first hn
      exact .lexeme hl ha hrest
    | space => exact .space hrest

end Decomposes

theorem Spells.decomposes {cs : List Char} {ls : List (TokenKind × List Char)} (h : Spells cs ls) :
    ∃ row, Decomposes cs row ∧ row.filterMap Stretch.lexeme? = ls := by
  induction h with
  | nil => exact ⟨[], .nil, rfl⟩
  | space _ ih =>
    obtain ⟨row, hrow, hls⟩ := ih
    exact ⟨.space :: row, hrow.space, hls⟩
  | @lexeme k w cs ls hl ha _ ih =>
    obtain ⟨row, hrow, rfl⟩ := ih
    exact ⟨.lexeme k w :: row, hrow.lexeme hl.grammatical ha, rfl⟩

/-! There is only one way. -/

/-- A row of glyphs that spells the characters, all of them at one place. -/
def glyphsAt (p : Position) (cs : List Char) : List Glyph := cs.map fun c => ⟨c, p⟩

theorem glyphsAt_map_char (p : Position) (cs : List Char) :
    (glyphsAt p cs).map Glyph.char = cs := by
  simp [glyphsAt, Function.comp_def]

theorem cut_glyphsAt {k : TokenKind} {c : Char} {w cs : List Char} (p : Position)
    (hl : Lexeme k (c :: w)) (ha : ∀ d ∈ cs.head?, k.absorbs d = false) :
    cut ⟨c, p⟩ (glyphsAt p (w ++ cs)) = (.token ⟨k, String.ofList (c :: w), p⟩, glyphsAt p cs) := by
  have ha : ∀ g ∈ (glyphsAt p cs).head?, k.absorbs g.char = false := by
    intro g hg
    rw [glyphsAt, List.head?_map] at hg
    obtain ⟨d, hd, rfl⟩ := Option.map_eq_some_iff.1 hg
    exact ha d hd
  have hw : ((⟨c, p⟩ : Glyph) :: glyphsAt p w).map Glyph.char = c :: w :=
    glyphsAt_map_char p (c :: w)
  have happend : glyphsAt p (w ++ cs) = glyphsAt p w ++ glyphsAt p cs := List.map_append
  rw [happend, cut_of_lexeme hl hw ha, Glyph.text, hw]

/-- Where two lexemes start the same text and neither could go on, they are the same: both are what
is cut there. -/
theorem lexeme_append_unique {k k' : TokenKind} {w w' cs cs' : List Char} (hl : Lexeme k w)
    (hl' : Lexeme k' w')
    (ha : ∀ c ∈ cs.head?, k.absorbs c = false) (ha' : ∀ c ∈ cs'.head?, k'.absorbs c = false)
    (h : w ++ cs = w' ++ cs') : k = k' ∧ w = w' ∧ cs = cs' := by
  obtain ⟨c, v, rfl⟩ := List.exists_cons_of_ne_nil hl.ne_nil
  obtain ⟨c', v', rfl⟩ := List.exists_cons_of_ne_nil hl'.ne_nil
  obtain ⟨rfl, hrest⟩ : c = c' ∧ v ++ cs = v' ++ cs' := by simpa using h
  have hcut := cut_glyphsAt ⟨1, 1⟩ hl ha
  rw [hrest, cut_glyphsAt ⟨1, 1⟩ hl' ha'] at hcut
  simp only [Prod.mk.injEq, Piece.token.injEq, Token.mk.injEq, String.ofList_inj] at hcut
  obtain ⟨⟨hk, hw, -⟩, hcs⟩ := hcut
  refine ⟨hk.symm, hw.symm, ?_⟩
  rw [← glyphsAt_map_char ⟨1, 1⟩ cs, ← hcs, glyphsAt_map_char]

namespace Decomposes

variable {text : List Char} {first first' : Stretch} {row row' : List Stretch} (hn : '\n' ∉ text)
include hn

theorem chars_ne_nil (h : Decomposes text (first :: row)) : first.chars ≠ [] := by
  cases first with
  | lexeme k w => exact (h.first hn).1.ne_nil
  | space => simp [Stretch.chars]

theorem not_space {k : TokenKind} {w : List Char} (h : Decomposes text (.lexeme k w :: row)) :
    ¬Decomposes text (.space :: row') := by
  intro h'
  obtain ⟨hl, -⟩ := h.first hn
  obtain ⟨c, v, rfl⟩ := List.exists_cons_of_ne_nil hl.ne_nil
  have htext := h.text_eq.symm.trans h'.text_eq
  exact hl.head_ne_space (List.cons.inj htext).1

/-- Two decompositions start alike and leave the same text. -/
theorem step_unique (h : Decomposes text (first :: row)) (h' : Decomposes text (first' :: row')) :
    first = first' ∧ row.flatMap Stretch.chars = row'.flatMap Stretch.chars := by
  have htext := h.text_eq.symm.trans h'.text_eq
  cases first with
  | lexeme k w =>
    cases first' with
    | lexeme k' w' =>
      obtain ⟨hl, ha⟩ := h.first hn
      obtain ⟨hl', ha'⟩ := h'.first hn
      obtain ⟨rfl, rfl, hrest⟩ := lexeme_append_unique hl hl' ha ha' htext
      exact ⟨rfl, hrest⟩
    | space => exact absurd h' (h.not_space hn)
  | space =>
    cases first' with
    | lexeme k' w' => exact absurd h (h'.not_space hn)
    | space => exact ⟨rfl, (List.cons.inj htext).2⟩

theorem unique (h : Decomposes text row) (h' : Decomposes text row') : row = row' := by
  induction row generalizing text row' with
  | nil =>
    cases row' with
    | nil => rfl
    | cons first' row' =>
      have hnil := h.covers.trans h'.text_eq
      exact absurd (List.append_eq_nil_iff.1 hnil.symm).1 (h'.chars_ne_nil hn)
  | cons first row ih =>
    cases row' with
    | nil =>
      have hnil := h'.covers.trans h.text_eq
      exact absurd (List.append_eq_nil_iff.1 hnil.symm).1 (h.chars_ne_nil hn)
    | cons first' row' =>
      obtain ⟨rfl, hrest⟩ := h.step_unique hn h'
      rw [ih (h.newline_notMem_rest hn) h.rest (hrest ▸ h'.rest)]

end Decomposes

/-- The tokens of a text are the lexemes of its decomposition, closed by the token of its end. -/
theorem tokenize_of_decomposes {text : List Char} {row : List Stretch}
    (h : Decomposes (strip text) row) :
    ∃ ts, tokenize text = .ok ts ∧
      ts.map Token.lexeme = row.filterMap Stretch.lexeme? ++ [(.endOfText, [])] := by
  have hspells := h.spells (newline_notMem_strip text)
  obtain ⟨ts, hts, hlexemes⟩ :=
    pieces_of_spells hspells (glyphs text) (glyphsFrom_map_strip 0 0 text)
  refine ⟨ts ++ [endToken text], tokenize_eq_ok.2 ⟨ts, hts, rfl⟩, ?_⟩
  rw [List.map_append, hlexemes]
  rfl

theorem decomposes_of_tokenize {text : List Char} {ts : List Token} (h : tokenize text = .ok ts) :
    ∃ row, Decomposes (strip text) row := by
  obtain ⟨us, -, hspells⟩ := spells_of_tokenize h
  rw [glyphs, glyphsFrom_map_strip] at hspells
  obtain ⟨row, hrow, -⟩ := hspells.decomposes
  exact ⟨row, hrow⟩

/-- A source is made of tokens exactly when its text, without line ends, is a row of lexemes and
spaces in which no lexeme could go on. There is at most one such row. The tokens are its lexemes in
order, with their kinds, and then one without text for the end. -/
theorem tokens_are_decomposition (source : List UInt8) :
    ((∃ ts, tokenize (Text.decode source) = .ok ts) ↔ ∃ row,
      Decomposes (strip (Text.decode source)) row) ∧
    (∀ row row', Decomposes (strip (Text.decode source)) row →
      Decomposes (strip (Text.decode source)) row' →
      row = row') ∧
    ∀ ts row, tokenize (Text.decode source) = .ok ts → Decomposes (strip (Text.decode source)) row →
      ts.map Token.lexeme = row.filterMap Stretch.lexeme? ++ [(.endOfText, [])] := by
  refine ⟨⟨?_, ?_⟩, ?_, ?_⟩
  · rintro ⟨ts, hts⟩
    exact decomposes_of_tokenize hts
  · rintro ⟨row, hrow⟩
    obtain ⟨ts, hts, -⟩ := tokenize_of_decomposes hrow
    exact ⟨ts, hts⟩
  · intro row row' h h'
    exact h.unique (newline_notMem_strip _) h'
  · intro ts row hts hrow
    obtain ⟨us, hus, hlexemes⟩ := tokenize_of_decomposes hrow
    obtain rfl : ts = us := Except.ok.inj (hts.symm.trans hus)
    exact hlexemes

/-- Dashes of all three kinds, a word and a number that only a line feed keeps apart, a string with
a byte that is no text and with a carriage return that stays, and a number over two lines. -/
def dashes : List UInt8 := Text.bytes "-1.-a-\n1\"" ++ 0xFF :: Text.bytes "\r\r\n\"- -\r\n5"

def dashesRow : List Stretch :=
  [.lexeme .numeric ['-', '1', '.'], .lexeme .minus ['-'], .lexeme .word ['a', '-'],
    .lexeme .numeric ['1'],
    .lexeme .text ['"', Text.replacement, '\r', '"'], .lexeme .minus ['-'], .space,
      .lexeme .numeric ['-', '5']]

theorem dashesRow_decomposes : Decomposes (dashesRow.flatMap Stretch.chars) dashesRow := by
  have hapart : ∀ {k : TokenKind} {d : Char} {cs : List Char}, k.absorbs d = false →
      ∀ c ∈ (d :: cs).head?, k.absorbs c = false := by
    intro k d cs hd c hc
    rwa [← Option.some.inj hc]
  have hnegative : Lexeme .numeric ['-', '1', '.'] := .negative (by decide) (by simp)
  have hword : Lexeme .word ['a', '-'] := .word (by decide) (by simp)
  have hnumeric : Lexeme .numeric ['1'] := .numeric (by decide) (by simp)
  have htext : Lexeme .text ['"', Text.replacement, '\r', '"'] :=
    @Lexeme.text [Text.replacement, '\r'] (by simp [Text.replacement])
  have hlast : Lexeme .numeric ['-', '5'] := .negative (by decide) (by simp)
  have hend : Decomposes ['-', '5'] [.lexeme .numeric ['-', '5']] :=
    .lexeme hlast.grammatical (by simp) .nil
  have hminus : Decomposes ['-', ' ', '-', '5'] [.lexeme .minus ['-'], .space,
    .lexeme .numeric ['-', '5']] :=
    .lexeme Lexeme.minus.grammatical (hapart (by decide)) hend.space
  have hmiddle :=
    (hminus.lexeme htext.grammatical (hapart (by decide))).lexeme hnumeric.grammatical
      (hapart (by decide))
  exact ((hmiddle.lexeme hword.grammatical (hapart (by decide))).lexeme Lexeme.minus.grammatical
    (hapart (by decide))).lexeme
    hnegative.grammatical (hapart (by decide))

theorem tokens_are_decomposition_dashes :
    Decomposes (strip (Text.decode dashes)) dashesRow ∧
    (∃ ts, tokenize (Text.decode dashes) = .ok ts ∧
      ts.map Token.lexeme = dashesRow.filterMap Stretch.lexeme? ++ [(.endOfText, [])]) ∧
    (∀ row, Decomposes (strip (Text.decode dashes)) row → row = dashesRow) ∧
    ¬∃ row, Decomposes (strip (Text.decode (Text.bytes "a#"))) row := by
  have hstrip : strip (Text.decode dashes) = dashesRow.flatMap Stretch.chars := by decide +kernel
  have hrow : Decomposes (strip (Text.decode dashes)) dashesRow := hstrip ▸ dashesRow_decomposes
  obtain ⟨hiff, hunique, htokens⟩ := tokens_are_decomposition dashes
  obtain ⟨ts, hts⟩ := hiff.2 ⟨dashesRow, hrow⟩
  have hrefused : (tokenize (Text.decode (Text.bytes "a#"))).isOk = false := by decide +kernel
  refine ⟨hrow, ⟨ts, hts, htokens ts _ hts hrow⟩, fun row h => hunique row _ h hrow, fun h => ?_⟩
  obtain ⟨us, hus⟩ := (tokens_are_decomposition (Text.bytes "a#")).1.2 h
  rw [hus] at hrefused
  cases hrefused

end ListLang
