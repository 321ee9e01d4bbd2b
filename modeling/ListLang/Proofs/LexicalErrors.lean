import ListLang.Proofs.Scanning
import ListLang.Proofs.TokenPlaces

/-! Why a text is not made of tokens. An odd number of double quotes leaves a string without an end,
and it is the last of them that opens it. Otherwise the text is refused for the characters outside
strings that belong to no token, and these are told by what stands before them alone: no token has
to be cut to find them. -/

namespace ListLang

/-- The characters that are good anywhere outside strings. -/
def isPlain (c : Char) : Bool :=
  [' ', '(', ')', '+', '-', '*', '/', '%', '\''].contains c || c.isAlpha || c.isDigit

/-- Whether dots at the end of the text, or none, come right after a digit. -/
def followsDigit (before : List Char) : Bool :=
  (before.reverse.dropWhile (· == '.')).head?.any Char.isDigit

/-- Whether a character belongs to no token after a text without line ends: it is outside strings,
as an even number of double quotes stands before it, and neither plain nor a dot in a block of dots
that comes right after a digit. -/
def isStray (before : List Char) (c : Char) : Bool :=
  before.count '"' % 2 = 0 && c ≠ '"' && !isPlain c && !(c = '.' && followsDigit before)

/-- The characters of a text that belong to no token, each as a token in its place. -/
def strays (text : List Char) : List Token :=
  text.zipIdx.filterMap fun (c, i) =>
    if ¬EndsLine c (text.drop (i + 1)) ∧ isStray (strip (text.take i)) c = true then
      some ⟨.invalid, String.singleton c, place (text.take i)⟩
    else none

/-! Numbers take in the dots that follow them. -/

theorem followsDigit_dot (before : List Char) :
    followsDigit (before ++ ['.']) = followsDigit before := by
  simp [followsDigit]

theorem followsDigit_snoc (before : List Char) {c : Char} (hc : c ≠ '.') :
    followsDigit (before ++ [c]) = c.isDigit := by
  simp [followsDigit, hc]

theorem followsDigit_numeric {before cs : List Char} (h : followsDigit before = true)
    (hcs : ∀ d ∈ cs, d.isDigit = true ∨ d = '.') : followsDigit (before ++ cs) = true := by
  induction cs generalizing before with
  | nil => rwa [List.append_nil]
  | cons c cs ih =>
    rw [List.append_cons]
    refine ih ?_ fun d hd => hcs d (List.mem_cons_of_mem _ hd)
    rcases hcs c List.mem_cons_self with hc | rfl
    · rw [followsDigit_snoc before (ne_of_class hc (by decide)), hc]
    · rw [followsDigit_dot, h]

theorem followsDigit_append_eq_false (before : List Char) {cs : List Char} (hne : cs ≠ [])
    (h : ∀ c ∈ cs, c ≠ '.' ∧ c.isDigit = false) : followsDigit (before ++ cs) = false := by
  obtain ⟨cs, c, rfl⟩ := (List.eq_nil_or_concat' cs).resolve_left hne
  have hc := h c (by simp)
  rw [← List.append_assoc, followsDigit_snoc _ hc.1, hc.2]

theorem count_doubleQuote_snoc (before : List Char) {c : Char} (hc : c ≠ '"') :
    (before ++ [c]).count '"' = before.count '"' := by
  simp [hc]

/-! Lexemes hold no stray character. -/

/-- None of the characters is stray after `before` and those that come first. -/
def Clean (before : List Char) : List Char → Prop
  | [] => True
  | c :: cs => isStray before c = false ∧ Clean (before ++ [c]) cs

section Clean

variable {before : List Char}

theorem isStray_of_isPlain {c : Char} (h : isPlain c = true) : isStray before c = false := by
  simp [isStray, h]

theorem isStray_doubleQuote : isStray before '"' = false := by simp [isStray]

theorem isStray_dot (h : followsDigit before = true) : isStray before '.' = false := by
  simp [isStray, h]

theorem isStray_inside (h : before.count '"' % 2 = 1) (c : Char) : isStray before c = false := by
  simp [isStray, h]

theorem isPlain_of_isAlpha {c : Char} (h : c.isAlpha = true) : isPlain c = true := by
  simp [isPlain, h]

theorem isPlain_of_isDigit {c : Char} (h : c.isDigit = true) : isPlain c = true := by
  simp [isPlain, h]

theorem Clean.append {cs ds : List Char} (h : Clean before cs) (h' : Clean (before ++ cs) ds) :
    Clean before (cs ++ ds) := by
  induction cs generalizing before with
  | nil => simpa using h'
  | cons c cs ih => exact ⟨h.1, ih h.2 (by simpa using h')⟩

theorem clean_of_isPlain {cs : List Char} (h : ∀ c ∈ cs, isPlain c = true) : Clean before cs := by
  induction cs generalizing before with
  | nil => trivial
  | cons c cs ih =>
    exact ⟨isStray_of_isPlain (h c List.mem_cons_self),
      ih fun d hd => h d (List.mem_cons_of_mem _ hd)⟩

/-- Digits and dots after a digit. -/
theorem clean_numeric {cs : List Char} (h : followsDigit before = true)
    (hcs : ∀ d ∈ cs, d.isDigit = true ∨ d = '.') : Clean before cs := by
  induction cs generalizing before with
  | nil => trivial
  | cons c cs ih =>
    have hc := hcs c List.mem_cons_self
    refine ⟨?_, ih (followsDigit_numeric h (by simpa using hc)) fun d hd => hcs d
      (List.mem_cons_of_mem _ hd)⟩
    rcases hc with hc | rfl
    · exact isStray_of_isPlain (isPlain_of_isDigit hc)
    · exact isStray_dot h

/-- Anything inside a string. -/
theorem clean_inside {cs : List Char} (h : before.count '"' % 2 = 1) (hcs : '"' ∉ cs) :
    Clean before cs := by
  induction cs generalizing before with
  | nil => trivial
  | cons c cs ih =>
    obtain ⟨hc, hcs⟩ : '"' ≠ c ∧ '"' ∉ cs := by simpa using hcs
    exact ⟨isStray_inside h c, ih (by rwa [count_doubleQuote_snoc before hc.symm]) hcs⟩

end Clean

section Lexeme

variable {before w : List Char} {k : TokenKind} (h : Lexeme k w)
include h

theorem Lexeme.clean (hout : before.count '"' % 2 = 0) : Clean before w := by
  have hdigit : ∀ {before : List Char} {c : Char} {cs : List Char}, c.isDigit = true →
      (∀ d ∈ cs, d.isDigit = true ∨ d = '.') → Clean before (c :: cs) := by
    intro before c cs hc hcs
    refine ⟨isStray_of_isPlain (isPlain_of_isDigit hc), clean_numeric ?_ hcs⟩
    rw [followsDigit_snoc before (ne_of_class hc (by decide)), hc]
  cases h with
  | word first rest =>
    refine clean_of_isPlain fun c hc => ?_
    rcases List.mem_cons.1 hc with rfl | hc
    · exact isPlain_of_isAlpha first
    · rcases rest c hc with hc | rfl
      · exact isPlain_of_isAlpha hc
      · decide
  | numeric first rest => exact hdigit first rest
  | negative first rest => exact ⟨isStray_of_isPlain (by decide), hdigit first rest⟩
  | @text cs inner =>
    have hquote : '"' ∉ cs := fun hm => (inner _ hm).1 rfl
    have hodd : (before ++ ['"']).count '"' % 2 = 1 := by simp; omega
    exact ⟨isStray_doubleQuote, (clean_inside hodd hquote).append ⟨isStray_doubleQuote, trivial⟩⟩
  | _ => exact ⟨isStray_of_isPlain (by decide), trivial⟩

/-- A string has two double quotes and any other lexeme none. -/
theorem Lexeme.count_doubleQuote : w.count '"' % 2 = 0 := by
  by_cases hk : k = .text
  · obtain rfl := hk
    cases h with
    | @text cs inner =>
      have hquote : '"' ∉ cs := fun hm => (inner _ hm).1 rfl
      simp [List.count_eq_zero.2 hquote]
  · rw [List.count_eq_zero.2 fun hm => absurd (h.isLexical_of_mem hk _ hm) (by decide)]

/-- Only a number ends in a digit, or in dots after one. -/
theorem Lexeme.numeric_of_followsDigit (hfollows : followsDigit (before ++ w) = true) :
    k = .numeric := by
  by_contra hk
  refine Bool.eq_false_iff.1 ?_ hfollows
  cases h with
  | word first rest =>
    refine followsDigit_append_eq_false before (List.cons_ne_nil _ _) fun c hc => ?_
    rcases List.mem_cons.1 hc with rfl | hc
    · exact ⟨ne_of_class first (by decide), isDigit_of_isAlpha first⟩
    · rcases rest c hc with hc | rfl
      · exact ⟨ne_of_class hc (by decide), isDigit_of_isAlpha hc⟩
      · decide
  | numeric | negative => exact absurd rfl hk
  | text =>
    rw [← List.append_assoc]
    exact followsDigit_snoc _ (by decide)
  | _ => exact followsDigit_snoc before (by decide)

end Lexeme

/-! Pieces that are no tokens. -/

/-- The stray characters of a row of glyphs. -/
def straysAmong (before : List Char) : List Glyph → List Token
  | [] => []
  | g :: gs =>
    if isStray before g.char then ⟨.invalid, Glyph.text [g], g.pos⟩ :: straysAmong
      (before ++ [g.char]) gs
    else straysAmong (before ++ [g.char]) gs

theorem straysAmong_append {before : List Char} {gs : List Glyph}
    (h : Clean before (gs.map Glyph.char))
    (rest : List Glyph) : straysAmong before (gs ++ rest) =
      straysAmong (before ++ gs.map Glyph.char) rest := by
  induction gs generalizing before with
  | nil => simp
  | cons g gs ih =>
    rw [List.cons_append, straysAmong, h.1, if_neg (by decide), ih h.2, List.append_assoc]
    rfl

/-- Between two pieces: outside strings, and not before a dot that a number would take in. -/
structure BetweenPieces (before : List Char) (gs : List Glyph) : Prop where
  outside : before.count '"' % 2 = 0
  apart : followsDigit before = true → ∀ g ∈ gs.head?, g.char ≠ '.'

section Pieces

variable {before : List Char} {g : Glyph} {gs rest : List Glyph}

theorem BetweenPieces.skip {c : Char} (h : BetweenPieces before gs) (hquote : c ≠ '"')
    (hdot : c ≠ '.') (hdigit : c.isDigit = false) : BetweenPieces (before ++ [c]) rest where
  outside := by rw [count_doubleQuote_snoc before hquote, h.outside]
  apart hfollows := by rw [followsDigit_snoc before hdot, hdigit] at hfollows; cases hfollows

/-- The cuts between the pieces fall where a reader of the characters alone would see none of them
parted. -/
theorem BetweenPieces.token {k : TokenKind} {us : List Glyph} (h : BetweenPieces before gs)
    (hl : Lexeme k (us.map Glyph.char)) (ha : ∀ h ∈ rest.head?, k.absorbs h.char = false) :
    BetweenPieces (before ++ us.map Glyph.char) rest where
  outside := by rw [List.count_append, Nat.add_mod, h.outside, hl.count_doubleQuote]
  apart hfollows r hr hdot := by
    have habsorbs := ha r hr
    rw [hl.numeric_of_followsDigit hfollows, hdot] at habsorbs
    cases habsorbs

theorem BetweenPieces.invalid (h : BetweenPieces before (g :: rest)) (hquote : g.char ≠ '"')
    (hdigit : g.char.isDigit = false) : BetweenPieces (before ++ [g.char]) rest := by
  by_cases hdot : g.char = '.'
  · refine ⟨by rw [count_doubleQuote_snoc before hquote, h.outside], fun hfollows => absurd hdot ?_⟩
    rw [hdot, followsDigit_dot] at hfollows
    exact h.apart hfollows g rfl
  · exact h.skip hquote hdot hdigit

theorem isStray_of_invalid (h : BetweenPieces before (g :: rest)) (hspace : g.char ≠ ' ')
    (hmark : markKind? g.char = none)
    (hquote : g.char ≠ '"') (hdigit : g.char.isDigit = false) (hdash : g.char ≠ '-')
      (halpha : g.char.isAlpha = false) :
    isStray before g.char = true := by
  have hplain : isPlain g.char = false := by
    have hmarks : ∀ c ∈ ['(', ')', '+', '*', '/', '%', '\''], g.char ≠ c := by
      rintro c hc rfl
      simp only [List.mem_cons, List.not_mem_nil, or_false] at hc
      rcases hc with hc | hc | hc | hc | hc | hc | hc <;> rw [hc] at hmark <;> cases hmark
    simp only [List.mem_cons, List.not_mem_nil, or_false, forall_eq_or_imp, forall_eq] at hmarks
    simp [isPlain, hspace, hdash, hdigit, halpha, hmarks]
  have hdot : (g.char = '.' && followsDigit before) = false := by
    rw [Bool.and_eq_false_iff, decide_eq_false_iff_not]
    by_cases hfollows : followsDigit before = true
    · exact Or.inl (h.apart hfollows g rfl)
    · exact Or.inr (by simpa using hfollows)
  simp [isStray, h.outside, hquote, hplain, hdot]

/-- Where all strings end, the pieces that are no tokens are the stray characters. -/
theorem invalid?_eq_straysAmong (hn : ∀ g ∈ gs, g.char ≠ '\n')
    (hended : ∀ p ∈ pieces gs, p.unterminated? = none)
    (h : BetweenPieces before gs) : (pieces gs).filterMap Piece.invalid? =
      straysAmong before gs := by
  fun_induction pieces gs generalizing before with
  | case1 => rfl
  | case2 g rest hg ih =>
    have hnext : BetweenPieces (before ++ [g.char]) rest := by
      rw [hg]
      exact h.skip (by decide) (by decide) (by decide)
    have hclean : isStray before g.char = false := by
      rw [hg]
      exact isStray_of_isPlain (by decide)
    rw [straysAmong, hclean, if_neg (by decide)]
    exact ih (fun h hh => hn h (List.mem_cons_of_mem _ hh)) hended hnext
  | case3 g rest hg ih =>
    have hrest : ∀ h ∈ rest, h.char ≠ '\n' := fun h hh => hn h (List.mem_cons_of_mem _ hh)
    have hcut : Cuts g rest (cut g rest) := cuts_cut hrest
    generalize cut g rest = r at hcut hended ih ⊢
    have hended' : ∀ p ∈ pieces r.2, p.unterminated? = none :=
      fun p hp => hended p (List.mem_cons_of_mem _ hp)
    cases hcut with
    | @token k us left hus hl ha =>
      subst hus
      have hleft : ∀ h ∈ left, h.char ≠ '\n' := fun h hh => hrest h (List.mem_append_right _ hh)
      rw [← List.cons_append, straysAmong_append (hl.clean h.outside)]
      exact ih hleft hended' (h.token hl ha)
    | invalid hmark hquote hdigit hdash halpha =>
      rw [straysAmong, if_pos (isStray_of_invalid h hg hmark hquote hdigit hdash halpha)]
      exact congrArg _ (ih hrest hended' (h.invalid hquote hdigit))
    | unterminated => cases hended _ List.mem_cons_self

end Pieces

/-! Strings without an end. -/

/-- The place of the last double quote. -/
def LastQuoteAt (gs : List Glyph) (p : Position) : Prop :=
  ∃ us g vs, gs = us ++ g :: vs ∧ g.char = '"' ∧ (∀ h ∈ vs, h.char ≠ '"') ∧ g.pos = p

theorem LastQuoteAt.append {gs : List Glyph} {p : Position} (h : LastQuoteAt gs p)
    (us : List Glyph) :
    LastQuoteAt (us ++ gs) p := by
  obtain ⟨vs, g, ws, rfl, hg⟩ := h
  exact ⟨us ++ vs, g, ws, by rw [List.append_assoc], hg⟩

/-- What the pieces say of the strings that do not end. -/
def EndsInString (gs : List Glyph) : Option Position → Prop
  | some p => (gs.map Glyph.char).count '"' % 2 = 1 ∧ LastQuoteAt gs p
  | none => (gs.map Glyph.char).count '"' % 2 = 0

theorem EndsInString.append {us gs : List Glyph} {p? : Option Position}
    (hus : (us.map Glyph.char).count '"' % 2 = 0) (h : EndsInString gs p?) :
      EndsInString (us ++ gs) p? := by
  have hcount : ((us ++ gs).map Glyph.char).count '"' % 2 = (gs.map Glyph.char).count '"' % 2 := by
    rw [List.map_append, List.count_append, Nat.add_mod, hus, Nat.zero_add, Nat.mod_mod]
  cases p? with
  | none => exact hcount.trans h
  | some p => exact ⟨hcount.trans h.1, h.2.append us⟩

theorem EndsInString.cons {g : Glyph} {gs : List Glyph} {p? : Option Position} (hg : g.char ≠ '"')
    (h : EndsInString gs p?) : EndsInString (g :: gs) p? := by
  have hcons : EndsInString ([g] ++ gs) p? := h.append (by simp [hg])
  exact hcons

theorem endsInString_pieces {gs : List Glyph} (hn : ∀ g ∈ gs, g.char ≠ '\n') :
    EndsInString gs ((pieces gs).findSome? Piece.unterminated?) := by
  fun_induction pieces gs with
  | case1 => rfl
  | case2 g rest hg ih =>
    exact (ih fun h hh => hn h (List.mem_cons_of_mem _ hh)).cons (by rw [hg]; decide)
  | case3 g rest hg ih =>
    have hrest : ∀ h ∈ rest, h.char ≠ '\n' := fun h hh => hn h (List.mem_cons_of_mem _ hh)
    have hcut : Cuts g rest (cut g rest) := cuts_cut hrest
    generalize cut g rest = r at hcut ih ⊢
    cases hcut with
    | @token k us left hus hl =>
      subst hus
      have hleft : ∀ h ∈ left, h.char ≠ '\n' := fun h hh => hrest h (List.mem_append_right _ hh)
      rw [← List.cons_append]
      exact (ih hleft).append hl.count_doubleQuote
    | invalid _ hquote => exact (ih hrest).cons hquote
    | unterminated hg hnone =>
      refine ⟨?_, [], g, rest, rfl, hg, hnone, rfl⟩
      have hcount : (rest.map Glyph.char).count '"' = 0 := by
        rw [List.count_eq_zero, List.mem_map]
        rintro ⟨h, hh, hchar⟩
        exact hnone h hh hchar
      rw [List.map_cons, hg, List.count_cons_self, hcount]

/-! From glyphs to the text. -/

theorem notMem_of_strip {c : Char} {cs : List Char} (hfeed : c ≠ '\n') (hreturn : c ≠ '\r')
    (h : c ∉ strip cs) : c ∉ cs := by
  rwa [← List.count_eq_zero, ← count_strip hfeed hreturn, List.count_eq_zero]

theorem exists_split_of_lastQuoteAt {text : List Char} {p : Position}
    (h : LastQuoteAt (glyphs text) p) :
    ∃ before after, text = before ++ '"' :: after ∧ '"' ∉ after ∧ p = place before := by
  obtain ⟨us, g, vs, hglyphs, hg, hvs, rfl⟩ := h
  rw [glyphs_eq_glyphsAfter] at hglyphs
  obtain ⟨run, rest, rfl, -, hrest⟩ := glyphsAfter_eq_append hglyphs
  obtain ⟨lead, after, rfl, -, -, hpos, hafter⟩ := glyphsAfter_eq_cons hrest.symm
  refine ⟨run ++ lead, after, by rw [hg, List.append_assoc], ?_, hpos⟩
  refine notMem_of_strip (by decide) (by decide) fun hm => ?_
  rw [← glyphsAfter_map_char ([] ++ run ++ lead ++ [g.char]), ← hafter, List.mem_map] at hm
  obtain ⟨h, hh, hchar⟩ := hm
  exact hvs h hh hchar

/-- A text has one last double quote. -/
theorem split_unique {c : Char} {us vs us' vs' : List Char} (h : us ++ c :: vs = us' ++ c :: vs')
    (hvs : c ∉ vs) (hvs' : c ∉ vs') : us = us' := by
  rcases List.append_eq_append_iff.1 h with ⟨ws, rfl, hws⟩ | ⟨ws, rfl, hws⟩
  · cases ws with
    | nil => rw [List.append_nil]
    | cons d ws => exact absurd (by rw [(List.cons.inj hws).2]; simp) hvs
  · cases ws with
    | nil => rw [List.append_nil]
    | cons d ws => exact absurd (by rw [(List.cons.inj hws).2]; simp) hvs'

/-- The stray glyphs are the stray characters of the text, in their places. -/
theorem straysAmong_eq_strays (text : List Char) : straysAmong [] (glyphs text) = strays text := by
  -- `done` are the glyphs before `cs`: all of `before` but its line ends, and those that `cs`
  -- completes
  have hgeneral : ∀ cs before done, before ++ cs = text → strip text = done ++ strip cs →
      straysAmong done (glyphsAfter before cs) = (cs.zipIdx before.length).filterMap fun (c, i) =>
        if ¬EndsLine c (text.drop (i + 1)) ∧ isStray (strip (text.take i)) c = true then
          some ⟨.invalid, String.singleton c, place (text.take i)⟩
        else none := by
    intro cs
    induction cs with
    | nil => intro before done _ _; rfl
    | cons c cs ih =>
      intro before done htext hdone
      have hnext : before ++ [c] ++ cs = text := by rw [← htext, List.append_assoc]; rfl
      have htake : text.take before.length = before := by rw [← htext, List.take_left]
      have hdrop : text.drop (before.length + 1) = cs := by
        rw [← hnext, show before.length + 1 = (before ++ [c]).length by simp, List.drop_left]
      have ih : ∀ done, strip text = done ++ strip cs →
        straysAmong done (glyphsAfter (before ++ [c]) cs) = _ :=
        fun done hdone => ih (before ++ [c]) done hnext hdone
      rw [List.length_append, List.length_singleton] at ih
      rw [List.zipIdx_cons, List.filterMap_cons]
      simp only [htake, hdrop]
      by_cases hc : EndsLine c cs
      · rw [glyphsAfter_of_endsLine before hc, if_neg fun h => h.1 hc]
        rw [strip_of_endsLine hc] at hdone
        exact ih done hdone
      · have hfeed : c ≠ '\n' := fun hfeed => hc (Or.inl hfeed)
        have hbefore : strip before = done := by
          rw [← htext, strip_append_cons hfeed] at hdone
          exact List.append_cancel_right hdone
        rw [strip_of_not_endsLine hc, List.append_cons] at hdone
        rw [glyphsAfter_of_not_endsLine before hc, straysAmong, hbefore, ih _ hdone]
        by_cases hstray : isStray done c = true
        · rw [if_pos hstray, if_pos ⟨hc, hstray⟩, String.singleton_eq_ofList]
          rfl
        · rw [if_neg hstray, if_neg fun h => hstray h.2]
  exact hgeneral text [] [] rfl rfl

/-! The two errors. -/

section Errors

variable {text : List Char} {ts : List Token} {p : Position} {e : ReadError}

/-- Either the last double quote opens a string without an end, or all strings end. -/
theorem endsInString_text (text : List Char) :
    (∃ p, (pieces (glyphs text)).findSome? Piece.unterminated? = some p ∧ text.count '"' % 2 = 1 ∧
      LastQuoteAt (glyphs text) p) ∨
    ((pieces (glyphs text)).findSome? Piece.unterminated? = none ∧ text.count '"' % 2 = 0) := by
  have hends : EndsInString (glyphs text) _ := endsInString_pieces (glyphsFrom_ne_newline 0 0 text)
  have hcount : ((glyphs text).map Glyph.char).count '"' = text.count '"' := by
    rw [glyphs, glyphsFrom_map_strip, count_strip (by decide) (by decide)]
  cases hp : (pieces (glyphs text)).findSome? Piece.unterminated? with
  | some p =>
    rw [hp, EndsInString, hcount] at hends
    exact Or.inl ⟨p, rfl, hends⟩
  | none =>
    rw [hp, EndsInString, hcount] at hends
    exact Or.inr ⟨rfl, hends⟩

theorem tokenize_unterminatedText : tokenize text = .error (.unterminatedText p) ↔
    (pieces (glyphs text)).findSome? Piece.unterminated? = some p := by
  rw [tokenize_eq_error]
  unfold tokensOf
  cases (pieces (glyphs text)).findSome? Piece.unterminated? with
  | some q => simp
  | none =>
    simp only [reduceCtorEq, iff_false]
    split_ifs <;> simp

theorem exists_unterminatedText_iff :
    (∃ p, tokenize text = .error (.unterminatedText p)) ↔ text.count '"' % 2 = 1 := by
  simp only [tokenize_unterminatedText]
  rcases endsInString_text text with ⟨p, hp, hodd, -⟩ | ⟨hnone, heven⟩
  · exact ⟨fun _ => hodd, fun _ => ⟨p, hp⟩⟩
  · simp [hnone, heven]

theorem unterminatedText_at (h : tokenize text = .error (.unterminatedText p))
    {before after : List Char}
    (htext : text = before ++ '"' :: after) (hlast : '"' ∉ after) : p = place before := by
  have hp := tokenize_unterminatedText.1 h
  rcases endsInString_text text with ⟨q, hq, -, hquote⟩ | ⟨hnone, -⟩
  · obtain rfl : p = q := Option.some.inj (hp.symm.trans hq)
    obtain ⟨before', after', htext', hlast', rfl⟩ := exists_split_of_lastQuoteAt hquote
    rw [split_unique (htext.symm.trans htext') hlast hlast']
  · cases hp.symm.trans hnone

theorem tokenize_invalidContent : tokenize text = .error (.invalidContent ts) ↔
    text.count '"' % 2 = 0 ∧ strays text ≠ [] ∧ ts = strays text := by
  rw [tokenize_eq_error, tokensOf_eq_invalidContent]
  rcases endsInString_text text with ⟨p, hp, hodd, -⟩ | ⟨hnone, heven⟩
  · simp [hp, hodd]
  · have hstart : BetweenPieces [] (glyphs text) := ⟨rfl, by simp [followsDigit]⟩
    have hstrays : (pieces (glyphs text)).filterMap Piece.invalid? = strays text := by
      rw [← straysAmong_eq_strays]
      exact invalid?_eq_straysAmong (glyphsFrom_ne_newline 0 0 text)
        (List.findSome?_eq_none_iff.1 hnone) hstart
    simp [hnone, hstrays, heven]

theorem error_of_tokenize (h : tokenize text = .error e) :
    (∃ p, e = .unterminatedText p) ∨ ∃ ts, e = .invalidContent ts := by
  rw [tokenize_eq_error] at h
  unfold tokensOf at h
  split at h
  · exact Or.inl ⟨_, (Except.error.inj h).symm⟩
  · simp only at h
    split at h
    · cases h
    · exact Or.inr ⟨_, (Except.error.inj h).symm⟩

end Errors

/-- A source is refused for a string without an end exactly when its double quotes are odd in
number, whatever else it holds, and the place that is told is that of the last of them. It is
refused for invalid content exactly when they are even in number and some characters belong to no
token, and these are then listed in their order and places. It is refused for nothing else, and what
is refused leaves no tokens. -/
theorem lexical_errors_are_classified (source : List UInt8) :
    ((∃ p, tokenize (Text.decode source) = .error (.unterminatedText p)) ↔
      (Text.decode source).count '"' % 2 = 1) ∧
    (∀ p before after, tokenize (Text.decode source) = .error (.unterminatedText p) →
      Text.decode source = before ++ '"' :: after → '"' ∉ after → p = place before) ∧
    (∀ ts, tokenize (Text.decode source) = .error (.invalidContent ts) ↔
      (Text.decode source).count '"' % 2 = 0 ∧ strays (Text.decode source) ≠ [] ∧ ts =
        strays (Text.decode source)) ∧
    ∀ e, tokenize (Text.decode source) = .error e →
      ((∃ p, e = .unterminatedText p) ∨ ∃ ts, e = .invalidContent ts) ∧
      (Lexer.ofText (Text.decode source)).scan.1 = .error e ∧
      (Lexer.ofText (Text.decode source)).scan.2.tokens = none := by
  refine ⟨exists_unterminatedText_iff,
    fun p before after h htext hlast => unterminatedText_at h htext hlast,
    fun ts => tokenize_invalidContent, fun e he => ⟨error_of_tokenize he, ?_, ?_⟩⟩
  · rw [scan_of_error he]
  · rw [scan_of_error he]

/-- An invalid character, a string over two lines, and one without an end after another line end. -/
def threeQuotes : List UInt8 := Text.bytes "# \"a\n\"\r\n b\"\t"

/-- Dots that belong to numbers, over a line end too, and dots that do not; characters that only a
string may hold. -/
def dots : List UInt8 := Text.bytes "1.\n.2 .a.\"#.\"-.5\t\r\r\n3.4."

theorem lexical_errors_are_classified_dots :
    tokenize (Text.decode threeQuotes) = .error (.unterminatedText ⟨3, 3⟩) ∧
    (Text.decode threeQuotes).count '"' % 2 = 1 ∧
    (∃ before after, Text.decode threeQuotes = before ++ '"' :: after ∧ '"' ∉ after ∧
      place before = ⟨3, 3⟩) ∧
    (Lexer.ofText (Text.decode threeQuotes)).scan.2.tokens = none ∧
    tokenize (Text.decode dots) = .error (.invalidContent
      [⟨.invalid, ".", ⟨2, 4⟩⟩, ⟨.invalid, ".", ⟨2, 6⟩⟩, ⟨.invalid, ".", ⟨2, 12⟩⟩,
        ⟨.invalid, "\t", ⟨2, 14⟩⟩,
        ⟨.invalid, "\r", ⟨2, 15⟩⟩]) ∧
    (Lexer.ofText (Text.decode dots)).scan.2.tokens = none := by
  have hodd : tokenize (Text.decode threeQuotes) = .error (.unterminatedText ⟨3, 3⟩) := by
    decide +kernel
  have hsplit : Text.decode threeQuotes = "# \"a\n\"\r\n b".toList ++ '"' :: ['\t'] := by
    decide +kernel
  have heven : (Text.decode dots).count '"' % 2 = 0 := by decide +kernel
  have hstrays : strays (Text.decode dots) =
      [⟨.invalid, ".", ⟨2, 4⟩⟩, ⟨.invalid, ".", ⟨2, 6⟩⟩, ⟨.invalid, ".", ⟨2, 12⟩⟩,
        ⟨.invalid, "\t", ⟨2, 14⟩⟩,
        ⟨.invalid, "\r", ⟨2, 15⟩⟩] := by decide +kernel
  obtain ⟨hunterminated, hplace, -, hscan⟩ := lexical_errors_are_classified threeQuotes
  obtain ⟨-, -, hinvalid, hscan'⟩ := lexical_errors_are_classified dots
  have hdots := (hinvalid _).2 ⟨heven, by rw [hstrays]; decide, hstrays.symm⟩
  exact ⟨hodd, hunterminated.1 ⟨_, hodd⟩,
    ⟨_, _, hsplit, by decide, (hplace _ _ _ hodd hsplit (by decide)).symm⟩,
    (hscan _ hodd).2.2, hdots, (hscan' _ hdots).2.2⟩

end ListLang
