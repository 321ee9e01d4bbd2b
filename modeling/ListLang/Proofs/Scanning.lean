import ListLang.Lexer.Scan
import ListLang.Proofs.Spelling
import ListLang.Proofs.Utf8

/-! A lexer that reads a text character by character finds the pieces that the text is cut into. Its
first scan therefore answers what tokenizing the text does, and leaves the lexer at the end of the
text. -/

namespace ListLang

/-! What is to be read, as glyphs. -/

namespace Feed

def ahead (f : Feed) : List Glyph := glyphsFrom f.line f.column f.rest

def stop (f : Feed) : Position := endFrom f.line f.column f.rest

theorem skipFrom_glyphs (line column : Nat) (cs : List Char) :
    (skipFrom line column cs).ahead = glyphsFrom line column cs ∧
      (skipFrom line column cs).stop = endFrom line column cs := by
  fun_induction skipFrom line column cs with
  | case1 line column cs ih => simpa [glyphsFrom, endFrom] using ih
  | case2 line column cs ih => simpa [glyphsFrom, endFrom] using ih
  | case3 line column cs => exact ⟨rfl, rfl⟩

theorem ahead_skip (f : Feed) : f.skip.ahead = f.ahead := (skipFrom_glyphs f.line f.column f.rest).1

theorem stop_skip (f : Feed) : f.skip.stop = f.stop := (skipFrom_glyphs f.line f.column f.rest).2

/-- After the line ends comes the end of the text, or a character that is a glyph. -/
theorem skipFrom_cases (line column : Nat) (cs : List Char) :
    (skipFrom line column cs).rest = [] ∨ ∃ l k c ds, skipFrom line column cs = ⟨l, k, c :: ds⟩ ∧
      glyphsFrom l k (c :: ds) = ⟨c, ⟨l + 1, k + 1⟩⟩ :: glyphsFrom l (k + 1) ds ∧
      endFrom l k (c :: ds) = endFrom l (k + 1) ds := by
  fun_induction skipFrom line column cs with
  | case1 line column cs ih => exact ih
  | case2 line column cs ih => exact ih
  | case3 line column cs hfeed hreturn =>
    cases cs with
    | nil => exact Or.inl rfl
    | cons c ds =>
      have hc : c = '\n' → False := by
        rintro rfl
        exact hfeed ds rfl
      have hc' : ∀ es, c = '\r' → ds = '\n' :: es → False := by
        rintro es rfl rfl
        exact hreturn es rfl
      exact Or.inr ⟨line, column, c, ds, rfl, glyphsFrom.eq_4 _ _ _ _ hc hc',
        endFrom.eq_4 _ _ _ _ hc hc'⟩

variable {f : Feed} {g : Glyph} {gs : List Glyph}

theorem next?_of_ahead_nil (h : f.ahead = []) :
    f.next? = none ∧ f.skip.rest = [] ∧ f.skip.pos = f.stop := by
  have hstop := f.stop_skip
  rw [← f.ahead_skip] at h
  rcases skipFrom_cases f.line f.column f.rest with hrest | ⟨l, k, c, ds, hskip, hglyphs, -⟩
  · have hnone : f.skip.rest = [] := hrest
    refine ⟨?_, hnone, ?_⟩
    · unfold next?
      split
      · rfl
      · rename_i heq
        rw [heq] at hnone
        cases hnone
    · rw [← hstop, stop, hnone]
      rfl
  · rw [show f.skip = _ from hskip, ahead, hglyphs] at h
    cases h

theorem next?_of_ahead_cons (h : f.ahead = g :: gs) : f.skip.pos = g.pos ∧
    ∃ after, f.next? = some (g.char, after) ∧ after.ahead = gs ∧ after.stop = f.stop := by
  have hstop := f.stop_skip
  rw [← f.ahead_skip] at h
  rcases skipFrom_cases f.line f.column f.rest with hrest | ⟨l, k, c, ds, hskip, hglyphs, hend⟩
  · rw [ahead, show f.skip.rest = [] from hrest] at h
    cases h
  · have hskip : f.skip = ⟨l, k, c :: ds⟩ := hskip
    rw [hskip, ahead, hglyphs] at h
    rw [hskip, stop, hend] at hstop
    cases h
    refine ⟨by rw [hskip]; rfl, ⟨l, k + 1, ds⟩, ?_, rfl, hstop⟩
    simp [next?, hskip]

theorem peek?_eq (f : Feed) : f.peek? = f.ahead.head?.map Glyph.char := by
  cases h : f.ahead with
  | nil => simp [peek?, (next?_of_ahead_nil h).2.1]
  | cons g gs =>
    obtain ⟨-, after, hnext, -⟩ := next?_of_ahead_cons h
    unfold next? at hnext
    split at hnext
    · cases hnext
    · rename_i heq
      cases hnext
      simp [peek?, heq]

end Feed

/-! From state to state. -/

theorem push_eq_append_text (b : String) (g : Glyph) : b.push g.char = b ++ Glyph.text [g] :=
  String.toList_inj.1 (by simp [toList_glyphText])

theorem push_append_text (b : String) (g : Glyph) (gs : List Glyph) :
    b.push g.char ++ Glyph.text gs = b ++ Glyph.text (g :: gs) :=
  String.toList_inj.1 (by simp [toList_glyphText])

namespace Lexer

variable {lx next : Lexer} {state state' : LexerState} {g : Glyph} {gs rest : List Glyph}

theorem readOn_of_some (h : lx.step state = (some state', next)) :
    lx.readOn state = next.readOn state' := by
  rw [readOn]
  split
  · rename_i heq
    cases h.symm.trans heq
  · rename_i heq
    cases h.symm.trans heq
    rfl

theorem readOn_of_none (h : lx.step state = (none, next)) : lx.readOn state = next := by
  rw [readOn]
  split
  · rename_i heq
    cases h.symm.trans heq
    rfl
  · rename_i heq
    cases h.symm.trans heq

theorem readOn_emit (lx : Lexer) (kind : TokenKind) :
    lx.readOn (.emit kind) = (lx.emit kind).readOn .start :=
  readOn_of_some rfl

theorem readOn_collect (lx : Lexer) (kind : TokenKind) (body : Char → Bool)
    (h : lx.feed.ahead = gs) :
    ∃ f : Feed, f.ahead = gs.dropWhile (fun h => body h.char) ∧ f.stop = lx.feed.stop ∧
      lx.readOn (.collect kind body) = ({ lx with
        feed := f, buffer :=
          lx.buffer ++ Glyph.text (gs.takeWhile fun h => body h.char) }.emit kind).readOn
            .start := by
  induction gs generalizing lx with
  | nil =>
    obtain ⟨hnext, -, -⟩ := Feed.next?_of_ahead_nil h
    have hstep : lx.step (.collect kind body) = (some (.emit kind), lx.skip) := by
      simp [step, hnext]
    refine ⟨lx.feed.skip, lx.feed.ahead_skip.trans h, lx.feed.stop_skip, ?_⟩
    rw [readOn_of_some hstep, readOn_emit]
    simp [skip, Glyph.text]
  | cons g gs ih =>
    obtain ⟨-, after, hnext, hahead, hstop⟩ := Feed.next?_of_ahead_cons h
    cases hbody : body g.char with
    | true =>
      have hstep : lx.step (.collect kind body) =
          (some (.collect kind body), lx.take g.char after) := by
        simp [step, hnext, hbody]
      obtain ⟨f, hf, hfstop, hrun⟩ := ih (lx.take g.char after) hahead
      refine ⟨f, by simpa [hbody] using hf, hfstop.trans hstop, ?_⟩
      rw [readOn_of_some hstep, hrun]
      simp [take, hbody, push_append_text]
    | false =>
      have hstep : lx.step (.collect kind body) = (some (.emit kind), lx.skip) := by
        simp [step, hnext, hbody]
      refine ⟨lx.feed.skip, ?_, lx.feed.stop_skip, ?_⟩
      · simpa [hbody] using lx.feed.ahead_skip.trans h
      · rw [readOn_of_some hstep, readOn_emit]
        simp [skip, hbody, Glyph.text]

theorem readOn_text (lx : Lexer) {q : Glyph} {left : List Glyph} (h : lx.feed.ahead = gs)
    (hq : gs.dropWhile (fun h => h.char != '"') = q :: left) :
    ∃ f : Feed, f.ahead = left ∧ f.stop = lx.feed.stop ∧
      lx.readOn .text = ({ lx with
        feed := f, buffer :=
          lx.buffer ++ Glyph.text ((gs.takeWhile fun h : Glyph => h.char != '"') ++ [q]) }.emit
          .text).readOn .start := by
  induction gs generalizing lx with
  | nil => cases hq
  | cons g gs ih =>
    obtain ⟨-, after, hnext, hahead, hstop⟩ := Feed.next?_of_ahead_cons h
    by_cases hquote : g.char = '"'
    · have hstep : lx.step .text = (some (.emit .text), lx.take g.char after) := by
        simp [step, hnext, hquote]
      obtain ⟨rfl, rfl⟩ : g = q ∧ gs = left := by simpa [hquote] using hq
      have htake : ((g :: gs).takeWhile fun h : Glyph => h.char != '"') = [] := by simp [hquote]
      refine ⟨after, hahead, hstop, ?_⟩
      rw [readOn_of_some hstep, readOn_emit, htake, List.nil_append, ← push_eq_append_text]
      rfl
    · have hstep : lx.step .text = (some .text, lx.take g.char after) := by
        simp [step, hnext, hquote]
      obtain ⟨f, hf, hfstop, hrun⟩ := ih (lx.take g.char after) hahead (by simpa [hquote] using hq)
      refine ⟨f, hf, hfstop.trans hstop, ?_⟩
      rw [readOn_of_some hstep, hrun]
      simp [take, hquote, push_append_text]

/-- A string without another double quote goes on to the end of the text, and stays in the
buffer. -/
theorem readOn_text_unterminated (lx : Lexer) (h : lx.feed.ahead = gs)
    (hq : gs.dropWhile (fun h => h.char != '"') = []) :
    ∃ (f : Feed) (b : String), f.rest = [] ∧ f.pos = lx.feed.stop ∧
      lx.readOn .text =
        { lx with feed := f, buffer := b, failure := some (.unterminatedText lx.start) } := by
  induction gs generalizing lx with
  | nil =>
    obtain ⟨hnext, hrest, hpos⟩ := Feed.next?_of_ahead_nil h
    have hstep : lx.step .text = (some (.fail (.unterminatedText lx.start)), lx.skip) := by
      simp [step, hnext]
    refine ⟨lx.feed.skip, lx.buffer, hrest, hpos, ?_⟩
    rw [readOn_of_some hstep, readOn_of_none rfl]
    rfl
  | cons g gs ih =>
    obtain ⟨-, after, hnext, hahead, hstop⟩ := Feed.next?_of_ahead_cons h
    have hquote : g.char ≠ '"' := by
      intro hquote
      simp [hquote] at hq
    have hstep : lx.step .text = (some .text, lx.take g.char after) := by simp [step, hnext, hquote]
    obtain ⟨f, b, hrest, hpos, hrun⟩ :=
      ih (lx.take g.char after) hahead (by simpa [hquote] using hq)
    refine ⟨f, b, hrest, hpos.trans hstop, ?_⟩
    rw [readOn_of_some hstep, hrun]
    rfl

/-! Piece by piece. -/

/-- A lexer that has read on from `lx` over one piece: what it found is added, and `left` is to be
read. -/
structure After (lx : Lexer) (p : Piece) (left : List Glyph) (next : Lexer) : Prop where
  ahead : next.feed.ahead = left
  stop : next.feed.stop = lx.feed.stop
  buffer : next.buffer = ""
  tokens : ∀ ts, lx.tokens = some ts → next.tokens = some (ts ++ p.token?.toList)
  invalid : next.invalid = lx.invalid ++ p.invalid?.toList
  failure : next.failure = lx.failure

/-- What a lexer has found when it has come to the end of a text that is cut into these pieces. -/
structure Reads (lx : Lexer) (ps : List Piece) (last : Lexer) : Prop where
  rest : last.feed.rest = []
  pos : last.feed.pos = lx.feed.stop
  tokens : ∀ ts, lx.tokens = some ts → last.tokens = some (ts ++ ps.filterMap Piece.token?)
  invalid : last.invalid = lx.invalid ++ ps.filterMap Piece.invalid?
  failure : last.failure = ((ps.findSome? Piece.unterminated?).map .unterminatedText).or lx.failure
  buffer : ps.findSome? Piece.unterminated? = none → last.buffer = ""

inductive ReadsPiece (lx : Lexer) : Piece × List Glyph → Prop where
  | found {p : Piece} {left : List Glyph} {next : Lexer} :
      p.unterminated? = none → After lx p left next →
      lx.readOn .start = next.readOn .start → ReadsPiece lx (p, left)
  | unterminated {p : Position} :
      Reads lx [.unterminated p] (lx.readOn .start) → ReadsPiece lx (.unterminated p, [])

theorem after_emit {f : Feed} {left : List Glyph} (hahead : f.ahead = left)
    (hstop : f.stop = lx.feed.stop) (kind : TokenKind) (b : String) :
    After lx (.token ⟨kind, b, lx.feed.skip.pos⟩) left
      ({ lx.mark with feed := f, buffer := b }.emit kind) where
  ahead := hahead
  stop := hstop
  buffer := rfl
  tokens ts hts := by simp [emit, mark, skip, hts, Piece.token?]
  invalid := (List.append_nil _).symm
  failure := rfl

section Piece

variable {f : Feed} {b : String} (hpos : lx.feed.skip.pos = g.pos) (hahead : f.ahead = rest)
  (hstop : f.stop = lx.feed.stop)
include hpos hahead hstop

theorem readsPiece_mark (kind : TokenKind) (hb : b = Glyph.text [g])
    (h : lx.readOn .start = Lexer.readOn { lx.mark with feed := f, buffer := b } (.emit kind)) :
    ReadsPiece lx (.token ⟨kind, Glyph.text [g], g.pos⟩, rest) := by
  subst hb
  rw [← hpos]
  exact .found rfl (after_emit hahead hstop kind _) (h.trans (readOn_emit _ kind))

theorem readsPiece_run (kind : TokenKind) (body : Char → Bool) (hb : b = Glyph.text [g])
    (h : lx.readOn .start = Lexer.readOn { lx.mark with feed := f, buffer := b }
      (.collect kind body)) :
    ReadsPiece lx (cutRun kind body g rest) := by
  subst hb
  obtain ⟨f', hf, hfstop, hrun⟩ :=
    readOn_collect { lx.mark with feed := f, buffer := Glyph.text [g] } kind body hahead
  have htext : Glyph.text [g] ++ Glyph.text (rest.takeWhile fun h => body h.char) =
      Glyph.text (g :: rest.takeWhile fun h => body h.char) := push_append_text "" g _
  rw [cutRun, ← hpos, ← htext]
  exact .found rfl (after_emit hf (hfstop.trans hstop) kind _) (h.trans hrun)

theorem readsPiece_string (hb : b = Glyph.text [g])
    (h : lx.readOn .start = Lexer.readOn { lx.mark with feed := f, buffer := b } .text) :
    ReadsPiece lx (cutString g rest) := by
  subst hb
  cases hdrop : rest.dropWhile (fun h => h.char != '"') with
  | nil =>
    simp only [cutString, hdrop]
    obtain ⟨f', b', hrest, hend, hrun⟩ :=
      readOn_text_unterminated { lx.mark with feed := f, buffer := Glyph.text [g] } hahead hdrop
    rw [← hpos]
    refine .unterminated ?_
    rw [h, hrun]
    exact ⟨hrest, hend.trans hstop, fun ts hts => by simp [mark, skip, hts, Piece.token?],
      by simp [mark, skip, Piece.invalid?], rfl, fun hnone => by cases hnone⟩
  | cons q left =>
    simp only [cutString, hdrop]
    obtain ⟨f', hf, hfstop, hrun⟩ :=
      readOn_text { lx.mark with feed := f, buffer := Glyph.text [g] } hahead hdrop
    have htext : Glyph.text [g] ++ Glyph.text ((rest.takeWhile fun h => h.char != '"') ++ [q]) =
        Glyph.text (g :: (rest.takeWhile fun h => h.char != '"') ++ [q]) := push_append_text "" g _
    rw [← hpos, ← htext]
    exact .found rfl (after_emit hf (hfstop.trans hstop) .text _) (h.trans hrun)

theorem readsPiece_invalid (hb : b = Glyph.text [g])
    (h : lx.readOn .start = (Lexer.reject { lx.mark with feed := f, buffer := b }).readOn .start) :
    ReadsPiece lx (.invalid ⟨.invalid, Glyph.text [g], g.pos⟩, rest) := by
  subst hb
  rw [← hpos]
  have hafter : After lx (.invalid ⟨.invalid, Glyph.text [g], lx.feed.skip.pos⟩) rest
      (Lexer.reject { lx.mark with feed := f, buffer := Glyph.text [g] }) :=
    ⟨hahead, hstop, rfl, fun ts hts => by simp [reject, mark, skip, hts, Piece.token?], rfl, rfl⟩
  exact .found rfl hafter h

end Piece

theorem readsPiece_cut (hbuffer : lx.buffer = "") (h : lx.feed.ahead = g :: rest)
    (hspace : g.char ≠ ' ') :
    ReadsPiece lx (cut g rest) := by
  obtain ⟨hpos, f, hnext, hahead, hstop⟩ := Feed.next?_of_ahead_cons h
  have hfirst : ∀ {state next}, (lx.mark.take g.char f).begin g.char = (state, next) →
      lx.readOn .start = next.readOn state := by
    intro state next hbegin
    exact readOn_of_some (by simp [step, hnext, hbegin])
  have htext : lx.buffer.push g.char = Glyph.text [g] := by
    rw [push_eq_append_text, hbuffer, String.empty_append]
  unfold cut
  cases hmark : markKind? g.char with
  | some kind =>
    exact readsPiece_mark hpos hahead hstop kind htext (hfirst (by simp only [begin, hmark]; rfl))
  | none =>
    simp only
    split
    · rename_i hquote
      exact readsPiece_string hpos hahead hstop htext
        (hfirst (by simp only [begin, hmark, if_pos hquote]; rfl))
    rename_i hquote
    split
    · rename_i hdigit
      exact readsPiece_run hpos hahead hstop .numeric isNumericBody htext
        (hfirst (by simp only [begin, hmark, if_neg hquote, if_pos hdigit]; rfl))
    rename_i hdigit
    split
    · rename_i hdash
      -- looking at the next character passes line ends
      have hahead' : f.skip.ahead = rest := f.ahead_skip.trans hahead
      have hstop' : f.skip.stop = lx.feed.stop := f.stop_skip.trans hstop
      have hpeek : (f.peek?.map Char.isDigit) = rest.head?.map fun h => h.char.isDigit := by
        rw [Feed.peek?_eq, hahead, Option.map_map]
        rfl
      have hbegin : (lx.mark.take g.char f).begin g.char =
          (if f.peek?.map Char.isDigit = some true then .collect .numeric isNumericBody
            else .emit .minus,
            { lx.mark with feed := f.skip, buffer := lx.buffer.push g.char }) := by
        simp only [begin, hmark, if_neg hquote, if_neg hdigit, if_pos hdash]
        rfl
      rw [hpeek] at hbegin
      split
      · rename_i hnumber
        rw [if_pos hnumber] at hbegin
        exact readsPiece_run hpos hahead' hstop' .numeric isNumericBody htext (hfirst hbegin)
      · rename_i hnumber
        rw [if_neg hnumber] at hbegin
        exact readsPiece_mark hpos hahead' hstop' .minus htext (hfirst hbegin)
    rename_i hdash
    split
    · rename_i halpha
      exact readsPiece_run hpos hahead hstop .word isWordBody htext
        (hfirst (by simp only [begin, hmark, if_neg hquote, if_neg hdigit, if_neg hdash,
          if_pos halpha]; rfl))
    · rename_i halpha
      exact readsPiece_invalid hpos hahead hstop htext
        (hfirst (by simp only [begin, hmark, if_neg hquote, if_neg hdigit, if_neg hdash,
          if_neg halpha, if_neg hspace]; rfl))

theorem After.reads {p : Piece} {left : List Glyph} {ps : List Piece} {last : Lexer}
    (h : After lx p left next)
    (hp : p.unterminated? = none) (hreads : Reads next ps last) : Reads lx (p :: ps) last where
  rest := hreads.rest
  pos := hreads.pos.trans h.stop
  tokens ts hts := by
    rw [hreads.tokens _ (h.tokens ts hts)]
    cases hp : p.token? <;> simp [hp]
  invalid := by
    rw [hreads.invalid, h.invalid]
    cases hp : p.invalid? <;> simp [hp]
  failure := by rw [hreads.failure, h.failure, List.findSome?_cons_of_isNone (by simp [hp])]
  buffer hnone := hreads.buffer (by rwa [List.findSome?_cons_of_isNone (by simp [hp])] at hnone)

/-- A lexer that has nothing left of an earlier piece finds the pieces of what is to be read. -/
theorem reads_pieces (lx : Lexer) (hbuffer : lx.buffer = "") (h : lx.feed.ahead = gs) :
    Reads lx (pieces gs) (lx.readOn .start) := by
  -- on the recursion of `pieces`, one piece or one space at a time
  fun_induction pieces gs generalizing lx with
  | case1 =>
    obtain ⟨hnext, hrest, hpos⟩ := Feed.next?_of_ahead_nil h
    have hstep : lx.step .start = (none, lx.mark) := by simp [step, hnext]
    rw [readOn_of_none hstep]
    exact ⟨hrest, hpos, fun ts hts => by simp [mark, skip, hts], by simp [mark,
      skip], rfl, fun _ => hbuffer⟩
  | case2 g rest hspace ih =>
    obtain ⟨-, f, hnext, hahead, hstop⟩ := Feed.next?_of_ahead_cons h
    have hstep : lx.step .start = (some .start, (lx.mark.take g.char f).discard) := by
      simp only [step, hnext, hspace]
      rfl
    have hreads := ih (lx.mark.take g.char f).discard rfl hahead
    rw [readOn_of_some hstep]
    exact ⟨hreads.rest, hreads.pos.trans hstop, hreads.tokens, hreads.invalid, hreads.failure,
      hreads.buffer⟩
  | case3 g rest hspace ih =>
    have hpiece := readsPiece_cut hbuffer h hspace
    generalize cut g rest = piece at hpiece ih ⊢
    cases hpiece with
    | found hp hafter hrun =>
      rw [hrun]
      exact hafter.reads hp (ih _ hafter.buffer hafter.ahead)
    | unterminated hreads => simpa [pieces] using hreads

/-! Whole texts. -/

/-- A lexer that has come to the end of a text without an error, at this place and with these
tokens. -/
structure Finished (p : Position) (ts : List Token) (lx : Lexer) : Prop where
  rest : lx.feed.rest = []
  pos : lx.feed.pos = p
  buffer : lx.buffer = ""
  tokens : lx.tokens = some ts
  error : lx.error? = none

/-- A lexer that has come to the end of a text with this error. -/
structure Refused (e : ReadError) (lx : Lexer) : Prop where
  rest : lx.feed.rest = []
  error : lx.error? = some e

section End

variable {p : Position} {ts : List Token} {e : ReadError}

theorem readOn_of_rest (h : lx.feed.rest = []) : lx.readOn .start = lx.mark := by
  have hnext := (Feed.next?_of_ahead_nil (f := lx.feed) (by rw [Feed.ahead, h]; rfl)).1
  exact readOn_of_none (by simp [step, hnext])

theorem feed_mark (h : lx.feed.rest = []) : lx.mark.feed = lx.feed := by
  show lx.feed.skip = lx.feed
  rw [Feed.skip, h, Feed.skipFrom, ← h]
  · intro cs hcs
    cases hcs
  · intro cs hcs
    cases hcs

/-- A text without errors gets a token for its end. -/
theorem Finished.conclude (h : Finished p ts lx) :
    lx.conclude.1 = .ok () ∧ Finished p (ts ++ [⟨.endOfText, "", p⟩]) lx.conclude.2 := by
  have hpos : lx.feed.skip.pos = p := (congrArg Feed.pos (feed_mark h.rest)).trans h.pos
  have hconclude : lx.conclude = (.ok (), lx.mark.emit .endOfText) := by
    rw [Lexer.conclude, h.error]
  rw [hconclude]
  refine ⟨rfl, ?_, ?_, rfl, ?_, h.error⟩
  · exact (congrArg Feed.rest (feed_mark h.rest)).trans h.rest
  · exact hpos
  · simp [emit, mark, skip, h.tokens, h.buffer, hpos]

/-- What is refused has no tokens, and the error stays. -/
theorem Refused.conclude (h : Refused e lx) :
    lx.conclude = (.error e, { lx with tokens := none, failure := some e }) := by
  rw [Lexer.conclude, h.error]

end End

section Text

variable {text : List Char} {us : List Token} {e : ReadError}

theorem reads_ofText (text : List Char) :
    Reads (ofText text) (pieces (glyphs text)) ((ofText text).readOn .start) :=
  reads_pieces _ rfl rfl

theorem finished_of_pieces {ts : List Token} (h : pieces (glyphs text) = ts.map .token) :
    Finished (endPosition text) ts ((ofText text).readOn .start) := by
  have hreads := reads_ofText text
  rw [h] at hreads
  have hinvalid := hreads.invalid
  have hfailure := hreads.failure
  have htokens := hreads.tokens [] rfl
  rw [invalid?_tokens] at hinvalid
  rw [unterminated?_tokens] at hfailure
  rw [token?_tokens] at htokens
  refine ⟨hreads.rest, hreads.pos, hreads.buffer (unterminated?_tokens ts), htokens, ?_⟩
  rw [error?, hfailure, hinvalid]
  rfl

/-- Reading a text that is not made of tokens comes to the error that it is refused for. -/
theorem refused_of_tokensOf (h : tokensOf (pieces (glyphs text)) = .error e) :
    Refused e ((ofText text).readOn .start) := by
  have hreads := reads_ofText text
  refine ⟨hreads.rest, ?_⟩
  unfold error?
  rw [hreads.failure, hreads.invalid]
  unfold tokensOf at h
  cases hended : (pieces (glyphs text)).findSome? Piece.unterminated? with
  | some p =>
    rw [hended] at h
    simpa using h
  | none =>
    rw [hended] at h
    simp only at h
    split at h
    · cases h
    · rename_i hbad
      simpa [ofText, hbad] using h

theorem scan_of_tokens (h : tokenize text = .ok us) :
    (ofText text).scan.1 = .ok () ∧ Finished (endPosition text) us (ofText text).scan.2 := by
  obtain ⟨ts, hpieces, rfl⟩ := tokenize_eq_ok.1 h
  exact (finished_of_pieces hpieces).conclude

end Text

end Lexer

theorem scan_of_error {text : List Char} {e : ReadError} (h : tokenize text = .error e) :
    (Lexer.ofText text).scan =
    (.error e, { (Lexer.ofText text).readOn .start with tokens := none, failure := some e }) :=
  (Lexer.refused_of_tokensOf (tokenize_eq_error.1 h)).conclude

/-! Scans after the first. -/

namespace Lexer

/-- The answers of `n` scans in a row, and the lexer after them. -/
def scans (lx : Lexer) : Nat → List (Except ReadError Unit) × Lexer
  | 0 => ([], lx)
  | n + 1 =>
    let before := lx.scans n
    let last := before.2.scan
    (before.1 ++ [last.1], last.2)

variable {lx : Lexer} {p : Position} {ts : List Token} {e : ReadError}

theorem Finished.mark (h : Finished p ts lx) : Finished p ts lx.mark := by
  have hfeed := feed_mark h.rest
  exact ⟨by rw [hfeed, h.rest], by rw [hfeed, h.pos], h.buffer, h.tokens, h.error⟩

theorem Finished.scan (h : Finished p ts lx) :
    lx.scan.1 = .ok () ∧ Finished p (ts ++ [⟨.endOfText, "", p⟩]) lx.scan.2 := by
  rw [Lexer.scan, readOn_of_rest h.rest]
  exact h.mark.conclude

theorem Refused.mark (h : Refused e lx) : Refused e lx.mark :=
  ⟨by rw [feed_mark h.rest, h.rest], h.error⟩

theorem Refused.scan (h : Refused e lx) :
    lx.scan.1 = .error e ∧ lx.scan.2.tokens = none ∧ Refused e lx.scan.2 := by
  rw [Lexer.scan, readOn_of_rest h.rest, h.mark.conclude]
  exact ⟨rfl, rfl, h.mark.rest, rfl⟩

theorem Finished.scans (h : lx.scan.1 = .ok () ∧ Finished p ts lx.scan.2) (n : Nat) :
    (lx.scans (n + 1)).1 = List.replicate (n + 1) (.ok ()) ∧
      Finished p (ts ++ List.replicate n ⟨.endOfText, "", p⟩) (lx.scans (n + 1)).2 := by
  induction n with
  | zero => simpa [Lexer.scans] using h
  | succ n ih =>
    obtain ⟨hanswers, hfinished⟩ := ih
    obtain ⟨hanswer, hfinished⟩ := hfinished.scan
    constructor
    · rw [Lexer.scans, hanswers, hanswer, List.replicate_succ' (n := n + 1)]
    · rw [List.replicate_succ', ← List.append_assoc]
      exact hfinished

theorem Refused.scans (h : lx.scan.1 = .error e ∧ lx.scan.2.tokens = none ∧ Refused e lx.scan.2)
    (n : Nat) :
    (lx.scans (n + 1)).1 = List.replicate (n + 1) (.error e) ∧ (lx.scans (n + 1)).2.tokens = none ∧
      Refused e (lx.scans (n + 1)).2 := by
  induction n with
  | zero => simpa [Lexer.scans] using h
  | succ n ih =>
    obtain ⟨hanswers, -, hrefused⟩ := ih
    obtain ⟨hanswer, hnone⟩ := hrefused.scan
    exact ⟨by rw [Lexer.scans, hanswers, hanswer, List.replicate_succ' (n := n + 1)], hnone⟩

end Lexer

/-- However often a lexer is scanned, every scan answers like the first. Where that one finds
tokens, each scan after it adds one more token for the end of the text, at the same place. Where it
is refused, so are all, for the same reason, and there are no tokens after any of them. -/
theorem rescanning_is_stable (source : List UInt8) (n : Nat) :
    ((Lexer.ofText (Text.decode source)).scan.1 = .ok () →
      ∃ ts, tokenize (Text.decode source) = .ok (ts ++ [endToken (Text.decode source)]) ∧
        (Lexer.ofText (Text.decode source)).scan.2.tokens =
          some (ts ++ [endToken (Text.decode source)]) ∧
        ((Lexer.ofText (Text.decode source)).scans (n + 1)).1 = List.replicate (n + 1) (.ok ()) ∧
        ((Lexer.ofText (Text.decode source)).scans (n + 1)).2.tokens =
          some (ts ++ [endToken (Text.decode source)] ++ List.replicate n
            (endToken (Text.decode source)))) ∧
    ∀ e, (Lexer.ofText (Text.decode source)).scan.1 = .error e →
      tokenize (Text.decode source) = .error e ∧
      ((Lexer.ofText (Text.decode source)).scans (n + 1)).1 = List.replicate (n + 1) (.error e) ∧
      ((Lexer.ofText (Text.decode source)).scans (n + 1)).2.tokens = none := by
  generalize Text.decode source = text
  cases htokens : tokenize text with
  | ok us =>
    have hfirst := Lexer.scan_of_tokens htokens
    obtain ⟨ts, -, rfl⟩ := tokenize_eq_ok.1 htokens
    obtain ⟨hanswers, hfinished⟩ := Lexer.Finished.scans hfirst n
    refine ⟨fun _ => ⟨ts, rfl, hfirst.2.tokens, hanswers, hfinished.tokens⟩, fun e he => ?_⟩
    cases hfirst.1.symm.trans he
  | error e =>
    have hscan := scan_of_error htokens
    have hrefused := Lexer.refused_of_tokensOf (tokenize_eq_error.1 htokens)
    have hfirst : (Lexer.ofText text).scan.1 = .error e ∧ (Lexer.ofText text).scan.2.tokens = none ∧
        Lexer.Refused e (Lexer.ofText text).scan.2 := by
      rw [hscan]
      exact ⟨rfl, rfl, hrefused.rest, rfl⟩
    refine ⟨fun hok => ?_, fun e' he' => ?_⟩
    · cases hfirst.1.symm.trans hok
    · cases hfirst.1.symm.trans he'
      obtain ⟨hanswers, hnone, -⟩ := Lexer.Refused.scans hfirst n
      exact ⟨rfl, hanswers, hnone⟩

/-- A list over two lines, with a line end after it. -/
def closedList : List UInt8 := Text.bytes "(a\n -1.5)\r\n"

/-- A character that belongs nowhere, and a string that is never closed. -/
def openString : List UInt8 := Text.bytes "# (a \"b\n c"

theorem rescanning_is_stable_thrice :
    (Lexer.ofText (Text.decode closedList)).scan.1 = .ok () ∧
    ((Lexer.ofText (Text.decode closedList)).scans 3).2.tokens.map (·.map Token.display) =
      some ["(:open_expression \"(\" [1 1])", "(:word \"a\" [1 2])", "(:numeric \"-1.5\" [2 2])",
        "(:close_expression \")\" [2 6])", "(:EOF \"\" [3 1])", "(:EOF \"\" [3 1])",
          "(:EOF \"\" [3 1])"] ∧
    (Lexer.ofText (Text.decode openString)).scan.1 = .error (.unterminatedText ⟨1, 6⟩) ∧
    ((Lexer.ofText (Text.decode openString)).scans 3).1 =
      List.replicate 3 (.error (.unterminatedText ⟨1, 6⟩)) ∧
    ((Lexer.ofText (Text.decode openString)).scans 3).2.tokens = none := by
  have hclosed : tokenize (Text.decode closedList) = .ok
      [⟨.openList, "(", ⟨1, 1⟩⟩, ⟨.word, "a", ⟨1, 2⟩⟩, ⟨.numeric, "-1.5", ⟨2, 2⟩⟩,
        ⟨.closeList, ")", ⟨2, 6⟩⟩,
        ⟨.endOfText, "", ⟨3, 1⟩⟩] := by
    decide +kernel
  have hopen : tokenize (Text.decode openString) = .error (.unterminatedText ⟨1, 6⟩) := by
    decide +kernel
  have hend : endToken (Text.decode closedList) = ⟨.endOfText, "", ⟨3, 1⟩⟩ := by decide +kernel
  have hok := (Lexer.scan_of_tokens hclosed).1
  have herror : (Lexer.ofText (Text.decode openString)).scan.1 =
      .error (.unterminatedText ⟨1, 6⟩) := by
    rw [scan_of_error hopen]
  obtain ⟨ts, htokens, -, -, hthrice⟩ := (rescanning_is_stable closedList 2).1 hok
  obtain ⟨-, hanswers, hnone⟩ := (rescanning_is_stable openString 2).2 _ herror
  refine ⟨hok, ?_, herror, hanswers, hnone⟩
  rw [hclosed, Except.ok.injEq] at htokens
  rw [hthrice, ← htokens, hend]
  decide +kernel

end ListLang
