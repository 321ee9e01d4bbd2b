import ListLang.Proofs.Places
import Mathlib.Data.List.Basic

/-! Tokens stand where their first character stands in the text, whatever line ends lie before or
within them, and they stand in the order in which they are listed. -/

namespace ListLang

/-! The order of places. -/

/-- Line by line, and within a line by columns. -/
def Position.Before (p q : Position) : Prop :=
  p.line < q.line ∨ p.line = q.line ∧ p.column < q.column

instance (p q : Position) : Decidable (p.Before q) := inferInstanceAs (Decidable (_ ∨ _))

theorem Position.Before.trans {p q r : Position} (h : p.Before q) (h' : q.Before r) :
    p.Before r := by
  unfold Position.Before at *
  omega

theorem place_before_snoc (before : List Char) (c : Char) :
    (place before).Before (place (before ++ [c])) := by
  by_cases hc : c = '\n'
  · subst hc
    left
    simp only [place, linesOf_newline]
    omega
  · right
    simp only [place, linesOf_snoc before hc, columnsOf_snoc before hc, true_and]
    omega

/-- What stands after more of the text stands later. -/
theorem place_before (before : List Char) {run : List Char} (h : run ≠ []) :
    (place before).Before (place (before ++ run)) := by
  induction run generalizing before with
  | nil => exact absurd rfl h
  | cons c run ih =>
    rw [List.append_cons]
    by_cases hrun : run = []
    · rw [hrun, List.append_nil]
      exact place_before_snoc before c
    · exact (place_before_snoc before c).trans (ih (before ++ [c]) hrun)

/-! What every piece of a text is. -/

theorem Lexeme.ne_invalid {k : TokenKind} {w : List Char} (h : Lexeme k w) : k ≠ .invalid := by
  cases h <;> decide

theorem Cuts.exists_append {g : Glyph} {rest left : List Glyph} {p : Piece}
    (h : Cuts g rest (p, left)) :
    ∃ gs, rest = gs ++ left := by
  cases h with
  | token hrest => exact ⟨_, hrest⟩
  | invalid => exact ⟨[], rfl⟩
  | unterminated => exact ⟨rest, (List.append_nil rest).symm⟩

theorem exists_cuts_of_mem_pieces {gs : List Glyph} {p : Piece} (hn : ∀ g ∈ gs, g.char ≠ '\n')
    (hp : p ∈ pieces gs) :
    ∃ g rest left, Cuts g rest (p, left) := by
  fun_induction pieces gs with
  | case1 => cases hp
  | case2 g rest hg ih => exact ih (fun h hh => hn h (List.mem_cons_of_mem _ hh)) hp
  | case3 g rest hg ih =>
    have hrest : ∀ h ∈ rest, h.char ≠ '\n' := fun h hh => hn h (List.mem_cons_of_mem _ hh)
    have hcut : Cuts g rest ((cut g rest).1, (cut g rest).2) := cuts_cut hrest
    rcases List.mem_cons.1 hp with rfl | hp
    · exact ⟨g, rest, _, hcut⟩
    · obtain ⟨us, hus⟩ := hcut.exists_append
      refine ih (fun h hh => hrest h ?_) hp
      rw [hus]
      exact List.mem_append_right us hh

/-- A token, or a character that is none as a token of its own. -/
def Piece.listed? : Piece → Option Token
  | .token t => some t
  | .invalid t => some t
  | .unterminated _ => none

/-- The characters that are no tokens are those that are listed as invalid. -/
theorem invalid?_pieces {gs : List Glyph} (hn : ∀ g ∈ gs, g.char ≠ '\n') :
    (pieces gs).filterMap Piece.invalid? =
      ((pieces gs).filterMap Piece.listed?).filter fun t => t.kind = .invalid := by
  rw [List.filter_filterMap]
  refine List.filterMap_congr fun p hp => ?_
  obtain ⟨g, rest, left, hcut⟩ := exists_cuts_of_mem_pieces hn hp
  cases hcut with
  | token _ hl => simp [Piece.invalid?, Piece.listed?, Option.filter_some, hl.ne_invalid]
  | invalid => rfl
  | unterminated => rfl

/-! Tokens in a text. -/

/-- Only spaces and line ends. -/
def Blank (cs : List Char) : Prop := ∀ c ∈ strip cs, c = ' '

/-- The tokens of the second part of a text, each in its place: before it there are only spaces and
line ends, and then come its characters, with line ends among them but none before the first. -/
inductive Laid : List Char → List Char → List Token → Prop where
  | done {before rest : List Char} : Blank rest → Laid before rest []
  | token {before gap run rest : List Char} {t : Token} {ts : List Token} : Blank gap → run ≠ [] →
      run.head? = t.text.toList.head? → strip run = t.text.toList → t.pos = place (before ++ gap) →
      Laid (before ++ gap ++ run) rest ts → Laid before (gap ++ (run ++ rest)) (t :: ts)

theorem Blank.append {cs ds : List Char} (h : Blank cs) (h' : Blank ds) : Blank (cs ++ ds) := by
  have hlast : cs.getLast? ≠ some '\r' := by
    intro hlast
    obtain ⟨cs, rfl⟩ := List.getLast?_eq_some_iff.1 hlast
    have hspace := h '\r' (by
      rw [strip_append_cons (by decide)]
      exact List.mem_append_right _ List.mem_cons_self)
    exact absurd hspace (by decide)
  intro c hc
  rw [strip_append fun hr => absurd hr hlast] at hc
  exact (List.mem_append.1 hc).elim (h c) (h' c)

theorem Laid.skip {before gap rest : List Char} {ts : List Token} (hgap : Blank gap)
    (h : Laid (before ++ gap) rest ts) : Laid before (gap ++ rest) ts := by
  cases h with
  | done hrest => exact .done (hgap.append hrest)
  | @token _ gap' run rest t ts hgap' hne hhead hrun hpos h =>
    rw [← List.append_assoc]
    exact .token (hgap.append hgap') hne hhead hrun (by rw [hpos, List.append_assoc])
      (by rwa [← List.append_assoc before gap gap'])

/-- All pieces of a text are in their places. -/
theorem laid_of_pieces {before cs : List Char} {gs : List Glyph} (hgs : glyphsAfter before cs = gs)
    (hended : ∀ p ∈ pieces gs, p.unterminated? = none) :
      Laid before cs ((pieces gs).filterMap Piece.listed?) := by
  fun_induction pieces gs generalizing before cs with
  | case1 =>
    have hnil : strip cs = [] := by rw [← glyphsAfter_map_char before, hgs, List.map_nil]
    exact .done fun c hc => by rw [hnil] at hc; cases hc
  | case2 g rest hg ih =>
    obtain ⟨lead, cs, rfl, hlead, -, -, hrest⟩ := glyphsAfter_eq_cons hgs
    have hblank : Blank (lead ++ [' ']) := by
      intro c hc
      rw [strip_append_cons (by decide), hlead] at hc
      exact List.mem_singleton.1 hc
    rw [hg] at hrest ⊢
    rw [List.append_cons]
    exact .skip hblank (ih (by rw [hrest, List.append_assoc]) hended)
  | case3 g rest hg ih =>
    obtain ⟨lead, cs, rfl, hlead, hkept, hpos, hrest⟩ := glyphsAfter_eq_cons hgs
    have hgap : Blank lead := fun c hc => by rw [hlead] at hc; cases hc
    have hcut : Cuts g rest (cut g rest) :=
      cuts_cut fun h hh => glyphsAfter_ne_newline _ _ h (hrest ▸ hh)
    generalize cut g rest = r at hcut hended ih ⊢
    cases hcut with
    | @token k us left hus hl ha =>
      obtain ⟨run, cs, rfl, hrun, hleft⟩ := glyphsAfter_eq_append (hrest.symm.trans hus)
      have htext : strip (g.char :: run) = (Glyph.text (g :: us)).toList := by
        rw [strip_of_not_endsLine (not_endsLine_append hkept), hrun, toList_glyphText,
          List.map_cons]
      have hhead : (g.char :: run).head? = (Glyph.text (g :: us)).toList.head? := by
        rw [toList_glyphText]; rfl
      have hlaid : Laid (before ++ lead ++ g.char :: run) cs
          ((pieces left).filterMap Piece.listed?) := by
        refine ih ?_ fun p hp => hended p (List.mem_cons_of_mem _ hp)
        rw [hleft, ← List.append_cons]
      exact .token hgap (List.cons_ne_nil _ _) hhead htext hpos hlaid
    | invalid =>
      have htext : strip [g.char] = (Glyph.text [g]).toList := by
        rw [strip_of_not_endsLine (not_endsLine_append hkept), toList_glyphText]
        rfl
      have hhead : [g.char].head? = (Glyph.text [g]).toList.head? := by rw [toList_glyphText]; rfl
      have hlaid : Laid (before ++ lead ++ [g.char]) cs ((pieces rest).filterMap Piece.listed?) :=
        ih hrest.symm fun p hp => hended p (List.mem_cons_of_mem _ hp)
      have hne : [g.char] ≠ [] := List.cons_ne_nil _ _
      exact @Laid.token before lead [g.char] cs ⟨.invalid, Glyph.text [g],
        g.pos⟩ _ hgap hne hhead htext hpos hlaid
    | unterminated => cases hended _ List.mem_cons_self

/-- The first character of the token is that of the text after `before`, and the place of the token
is as many lines and columns in. The token of the end has no first character, and stands after all
of the text. -/
structure Token.StartsAfter (t : Token) (text before : List Char) : Prop where
  first : ∃ after, text = before ++ after ∧ after.head? = t.text.toList.head?
  line : t.pos.line = 1 + before.count '\n'
  column : t.pos.column = 1 + (before.reverse.takeWhile (· != '\n')).length

theorem startsAfter_of_place {t : Token} {before after : List Char}
    (hhead : after.head? = t.text.toList.head?)
    (hpos : t.pos = place before) : t.StartsAfter (before ++ after) before where
  first := ⟨after, rfl, hhead⟩
  line := by rw [hpos, Int.add_comm]; rfl
  column := by rw [hpos, Int.add_comm]; rfl

section Laid

variable {before cs : List Char} {ts : List Token}

theorem Laid.exists_place (h : Laid before cs ts) : ∀ t ∈ ts, ∃ us vs, cs = us ++ vs ∧ vs ≠ [] ∧
    vs.head? = t.text.toList.head? ∧ t.pos = place (before ++ us) := by
  induction h with
  | done => simp
  | @token before gap run rest t ts _ hne hhead _ hpos _ ih =>
    intro u hu
    rcases List.mem_cons.1 hu with rfl | hu
    · refine ⟨gap, run ++ rest, rfl, List.append_ne_nil_of_left_ne_nil hne rest, ?_, hpos⟩
      rw [← hhead, List.head?_append_of_ne_nil run hne]
    · obtain ⟨us, vs, rfl, hvs, hhead, hpos⟩ := ih u hu
      exact ⟨gap ++ (run ++ us), vs, by simp, hvs, hhead, by rw [hpos]; simp⟩

theorem Laid.pairwise (h : Laid before cs ts) : ts.Pairwise fun t u => t.pos.Before u.pos := by
  induction h with
  | done => exact .nil
  | @token before gap run rest t ts _ hne _ _ hpos hrest ih =>
    refine .cons (fun u hu => ?_) ih
    obtain ⟨us, vs, -, -, -, hpos'⟩ := hrest.exists_place u hu
    rw [hpos, hpos', List.append_assoc (before ++ gap)]
    exact place_before _ (List.append_ne_nil_of_left_ne_nil hne us)

theorem Laid.startsAfter (h : Laid [] cs ts) : ∀ t ∈ ts, ∃ before, t.StartsAfter cs before := by
  intro t ht
  obtain ⟨us, vs, rfl, -, hhead, hpos⟩ := h.exists_place t ht
  exact ⟨us, startsAfter_of_place hhead hpos⟩

theorem Laid.before_end (h : Laid [] cs ts) : ∀ t ∈ ts, t.pos.Before (place cs) := by
  intro t ht
  obtain ⟨us, vs, rfl, hvs, -, hpos⟩ := h.exists_place t ht
  rw [hpos]
  exact place_before us hvs

end Laid

theorem endToken_startsAfter (text : List Char) : (endToken text).StartsAfter text text := by
  have h : (endToken text).StartsAfter (text ++ []) text :=
    startsAfter_of_place rfl (endPosition_eq_place text)
  rwa [List.append_nil] at h

/-- A row of pieces is refused for its invalid characters when all its strings end. -/
theorem tokensOf_eq_invalidContent {ps : List Piece} {ts : List Token} :
    tokensOf ps = .error (.invalidContent ts) ↔ ps.findSome? Piece.unterminated? = none ∧
      ps.filterMap Piece.invalid? ≠ [] ∧ ts = ps.filterMap Piece.invalid? := by
  unfold tokensOf
  cases ps.findSome? Piece.unterminated? with
  | some p => simp
  | none =>
    by_cases hnone : ps.filterMap Piece.invalid? = []
    · simp [hnone]
    · have hsome : (ps.filterMap Piece.invalid?).isEmpty = false := by simpa using hnone
      simp only [hsome, Bool.false_eq_true, if_false, Except.error.injEq,
        ReadError.invalidContent.injEq, true_and]
      exact ⟨fun h => ⟨hnone, h.symm⟩, fun h => h.2.symm⟩

theorem laid_of_tokenize {text : List Char} {ts : List Token} (h : tokenize text = .ok ts) :
    ∃ us, ts = us ++ [endToken text] ∧ Laid [] text us := by
  obtain ⟨us, hus, rfl⟩ := tokenize_eq_ok.1 h
  refine ⟨us, rfl, ?_⟩
  have hlaid :=
    laid_of_pieces (glyphs_eq_glyphsAfter text).symm (by simp [hus, Piece.unterminated?])
  rwa [hus, List.filterMap_map, show Piece.listed? ∘ Piece.token = some from rfl,
    List.filterMap_some] at hlaid

theorem laid_of_invalidContent {text : List Char} {ts : List Token}
    (h : tokenize text = .error (.invalidContent ts)) :
    ∃ us, Laid [] text us ∧ ts = us.filter fun t => t.kind = .invalid := by
  obtain ⟨hended, -, rfl⟩ := tokensOf_eq_invalidContent.1 (tokenize_eq_error.1 h)
  exact ⟨_, laid_of_pieces (glyphs_eq_glyphsAfter text).symm (List.findSome?_eq_none_iff.1 hended),
    invalid?_pieces (glyphsFrom_ne_newline 0 0 text)⟩

/-- The tokens of a source fill its text up to spaces and line ends, each in its place, and the
token of the end stands just past it. In a source that is refused for invalid characters these are
listed in their places among the tokens. Either way every listed token is as many lines and columns
into the text as its first character is, and stands before those that are listed after it. -/
theorem tokens_stand_in_text (source : List UInt8) :
    (∀ ts, tokenize (Text.decode source) = .ok ts →
      (∃ us, ts = us ++ [⟨.endOfText, "", place (Text.decode source)⟩] ∧
        Laid [] (Text.decode source) us) ∧
      (∀ t ∈ ts, ∃ before, t.StartsAfter (Text.decode source) before) ∧
        ts.Pairwise fun t u => t.pos.Before u.pos) ∧
    ∀ ts, tokenize (Text.decode source) = .error (.invalidContent ts) →
      (∃ us, Laid [] (Text.decode source) us ∧ ts = us.filter fun t => t.kind = .invalid) ∧
      (∀ t ∈ ts, ∃ before, t.StartsAfter (Text.decode source) before) ∧
        ts.Pairwise fun t u => t.pos.Before u.pos := by
  refine ⟨fun ts hts => ?_, fun ts hts => ?_⟩
  · obtain ⟨us, rfl, hlaid⟩ := laid_of_tokenize hts
    refine ⟨⟨us, by rw [endToken, endPosition_eq_place], hlaid⟩, fun t ht => ?_, ?_⟩
    · rcases List.mem_append.1 ht with ht | ht
      · exact hlaid.startsAfter t ht
      · rw [List.mem_singleton.1 ht]
        exact ⟨_, endToken_startsAfter _⟩
    · refine List.pairwise_append.2 ⟨hlaid.pairwise, List.pairwise_singleton _ _,
        fun t ht u hu => ?_⟩
      rw [List.mem_singleton.1 hu, endToken, endPosition_eq_place]
      exact hlaid.before_end t ht
  · obtain ⟨us, hlaid, rfl⟩ := laid_of_invalidContent hts
    exact ⟨⟨us, hlaid, rfl⟩, fun t ht => hlaid.startsAfter t (List.mem_filter.1 ht).1,
      hlaid.pairwise.filter _⟩

/-- A word that goes on after a line end, a number and a string over several lines, and a dash that
is parted from its digit. -/
def straddling : List UInt8 := Text.bytes "\n(ab\r\n- 1\n2 \"x\r\n\r\ny\"\n\n) -\n7 "

def straddlingTokens : List Token :=
  [⟨.openList, "(", ⟨2, 1⟩⟩, ⟨.word, "ab-", ⟨2, 2⟩⟩, ⟨.numeric, "12", ⟨3, 3⟩⟩,
    ⟨.text, "\"xy\"", ⟨4, 3⟩⟩,
    ⟨.closeList, ")", ⟨8, 1⟩⟩, ⟨.numeric, "-7", ⟨8, 3⟩⟩, ⟨.endOfText, "", ⟨9, 3⟩⟩]

/-- Carriage returns with and without a line feed of their own, outside and inside a string. -/
def strayReturns : List UInt8 := Text.bytes "1.\r\r\n.a\n\"\r@\"\r\n #"

theorem tokens_stand_in_text_straddling :
    tokenize (Text.decode straddling) = .ok straddlingTokens ∧
    (∃ us, straddlingTokens = us ++ [⟨.endOfText, "", ⟨9, 3⟩⟩] ∧
      Laid [] (Text.decode straddling) us) ∧
    (∃ before, (⟨.numeric, "-7", ⟨8, 3⟩⟩ : Token).StartsAfter (Text.decode straddling) before) ∧
    (straddlingTokens.Pairwise fun t u => t.pos.Before u.pos) ∧
    ∃ ts, tokenize (Text.decode strayReturns) = .error (.invalidContent ts) ∧
      ts = [⟨.invalid, "\r", ⟨1, 3⟩⟩, ⟨.invalid, ".", ⟨2, 1⟩⟩, ⟨.invalid, "#", ⟨4, 2⟩⟩] ∧
      (∀ t ∈ ts, ∃ before, t.StartsAfter (Text.decode strayReturns) before) ∧
      ts.Pairwise fun t u => t.pos.Before u.pos := by
  have haccepted : tokenize (Text.decode straddling) = .ok straddlingTokens := by decide +kernel
  have hrefused : tokenize (Text.decode strayReturns) =
      .error (.invalidContent [⟨.invalid, "\r", ⟨1, 3⟩⟩, ⟨.invalid, ".", ⟨2, 1⟩⟩,
        ⟨.invalid, "#", ⟨4, 2⟩⟩]) := by
    decide +kernel
  have hend : place (Text.decode straddling) = ⟨9, 3⟩ := by decide +kernel
  obtain ⟨⟨us, hus, hlaid⟩, hstarts, hordered⟩ := (tokens_stand_in_text straddling).1 _ haccepted
  obtain ⟨-, hstarts', hordered'⟩ := (tokens_stand_in_text strayReturns).2 _ hrefused
  rw [hend] at hus
  exact ⟨haccepted, ⟨us, hus, hlaid⟩, hstarts _ (by simp [straddlingTokens]), hordered, _, hrefused,
    rfl, hstarts', hordered'⟩

end ListLang
