import ListLang.Proofs.Flattening
import ListLang.Proofs.Layout

/-! Two texts with a space between them hold the expressions of the one and then those of the other,
and run as the one and then the other. -/

namespace ListLang

open Eval

namespace Expr

mutual

theorem Alike.nodes_kind : ∀ {a b : Expr}, Alike a b → (nodes a).map kind = (nodes b).map kind
  | atom t, atom u, h => by
    have hkind : t.kind = u.kind := h.1
    simp [nodes, kind, hkind]
  | list _ as, list _ bs, h => by
    have hall : (nodesAll as).map kind = (nodesAll bs).map kind := AlikeAll.nodesAll_kind h
    rw [nodes, nodes, List.map_cons, List.map_cons, hall, kind, kind]

theorem AlikeAll.nodesAll_kind : ∀ {as bs : List Expr}, AlikeAll as bs →
    (nodesAll as).map kind = (nodesAll bs).map kind
  | [], [], _ => rfl
  | a :: as, b :: bs, h => by
    rw [nodesAll, nodesAll, List.map_append, List.map_append, Alike.nodes_kind h.1,
      AlikeAll.nodesAll_kind h.2]

end

end Expr

/-! Reading does not look at places. What is read elsewhere is the same up to its places. -/

section Move

variable (f : Position → Position)

def Glyph.move (g : Glyph) : Glyph := { g with pos := f g.pos }

def Token.move (t : Token) : Token := { t with pos := f t.pos }

def Piece.move : Piece → Piece
  | .token t => .token (t.move f)
  | .invalid t => .invalid (t.move f)
  | .unterminated p => .unterminated (f p)

def ReadError.move : ReadError → ReadError
  | .unreadable reason => .unreadable reason
  | .unterminatedText p => .unterminatedText (f p)
  | .invalidContent ts => .invalidContent (ts.map (Token.move f))
  | .unclosedList p => .unclosedList (f p)
  | .strayClose p => .strayClose (f p)
  | .unexpectedToken p => .unexpectedToken (f p)

theorem ReadError.kind_move (e : ReadError) : (e.move f).kind = e.kind := by
  cases e <;> rfl

namespace Expr

mutual

def move : Expr → Expr
  | atom t => atom (t.move f)
  | list p es => list (f p) (moveAll es)

def moveAll : List Expr → List Expr
  | [] => []
  | e :: es => move e :: moveAll es

end

theorem moveAll_eq_map (es : List Expr) : moveAll f es = es.map (move f) := by
  induction es with
  | nil => rfl
  | cons e es ih => rw [moveAll, ih, List.map_cons]

mutual

theorem alike_move : ∀ e : Expr, Alike (move f e) e
  | atom _ => ⟨rfl, rfl⟩
  | list _ es => alikeAll_moveAll es

theorem alikeAll_moveAll : ∀ es : List Expr, AlikeAll (moveAll f es) es
  | [] => trivial
  | e :: es => ⟨alike_move e, alikeAll_moveAll es⟩

end

end Expr

theorem char_move (g : Glyph) : (g.move f).char = g.char := rfl

theorem text_map_move (gs : List Glyph) : Glyph.text (gs.map (Glyph.move f)) = Glyph.text gs := by
  rw [Glyph.text, Glyph.text, List.map_map]
  rfl

theorem takeWhile_map_move (body : Char → Bool) (gs : List Glyph) :
    ((gs.map (Glyph.move f)).takeWhile fun g => body g.char) =
      (gs.takeWhile fun g => body g.char).map (Glyph.move f) :=
  List.takeWhile_map ..

theorem dropWhile_map_move (body : Char → Bool) (gs : List Glyph) :
    ((gs.map (Glyph.move f)).dropWhile fun g => body g.char) =
      (gs.dropWhile fun g => body g.char).map (Glyph.move f) :=
  List.dropWhile_map ..

theorem cutRun_move (kind : TokenKind) (body : Char → Bool) (g : Glyph) (rest : List Glyph) :
    cutRun kind body (g.move f) (rest.map (Glyph.move f)) =
      (cutRun kind body g rest).map (Piece.move f) (List.map (Glyph.move f)) := by
  rw [cutRun, takeWhile_map_move, dropWhile_map_move, ← List.map_cons, text_map_move]
  rfl

theorem cutString_move (g : Glyph) (rest : List Glyph) :
    cutString (g.move f) (rest.map (Glyph.move f)) =
      (cutString g rest).map (Piece.move f) (List.map (Glyph.move f)) := by
  have htake := takeWhile_map_move f (· != '"') rest
  have hdrop := dropWhile_map_move f (· != '"') rest
  rw [cutString, cutString, htake, hdrop]
  cases rest.dropWhile fun h => h.char != '"' with
  | nil => rfl
  | cons q left =>
    have htext := text_map_move f (g :: (rest.takeWhile fun h => h.char != '"') ++ [q])
    rw [List.map_append, List.map_cons] at htext
    exact congrArg (fun text => (Piece.token ⟨.text, text, f g.pos⟩, left.map (Glyph.move f))) htext

theorem cut_move (g : Glyph) (rest : List Glyph) :
    cut (g.move f) (rest.map (Glyph.move f)) = (cut g rest).map (Piece.move f)
      (List.map (Glyph.move f)) := by
  have hnext : ((rest.map (Glyph.move f)).head?.map fun h => h.char.isDigit) =
      rest.head?.map fun h => h.char.isDigit := by
    rw [List.head?_map, Option.map_map]
    rfl
  rw [cut, cut, char_move, hnext]
  cases markKind? g.char with
  | some kind => rfl
  | none =>
    simp only [cutString_move, cutRun_move]
    split_ifs <;> rfl

theorem pieces_move (gs : List Glyph) :
    pieces (gs.map (Glyph.move f)) = (pieces gs).map (Piece.move f) := by
  fun_induction pieces gs with
  | case1 => rw [List.map_nil, pieces, List.map_nil]
  | case2 g rest hg ih => rw [List.map_cons, pieces, char_move, if_pos hg, ih]
  | case3 g rest hg ih =>
    rw [List.map_cons, pieces, char_move, if_neg hg, cut_move, List.map_cons]
    exact congrArg _ ih

/-- What comes of reading elsewhere. -/
def moved {α : Type} (g : α → α) : Except ReadError α → Except ReadError α
  | .ok a => .ok (g a)
  | .error e => .error (e.move f)

theorem unterminated?_move (ps : List Piece) :
    (ps.map (Piece.move f)).findSome? Piece.unterminated? =
      (ps.findSome? Piece.unterminated?).map f := by
  have hmove : Piece.unterminated? ∘ Piece.move f = Option.map f ∘ Piece.unterminated? := by
    funext p
    cases p <;> rfl
  rw [List.findSome?_map, List.map_findSome?, hmove]

theorem filterMap_move {g : Piece → Option Token}
    (hg : ∀ p, g (p.move f) = (g p).map (Token.move f)) (ps : List Piece) :
    (ps.map (Piece.move f)).filterMap g = (ps.filterMap g).map (Token.move f) := by
  rw [List.filterMap_map, List.map_filterMap]
  exact congrArg (List.filterMap · ps) (funext hg)

/-- Tokens before a row of pieces stay, and the row counts as it did elsewhere. -/
theorem tokensOf_tokens_append (ts : List Token) (ps : List Piece) :
    tokensOf (ts.map Piece.token ++ ps.map (Piece.move f)) =
      moved f (fun us => ts ++ us.map (Token.move f)) (tokensOf ps) := by
  have hinvalid := filterMap_move f (g := Piece.invalid?) (fun p => by cases p <;> rfl) ps
  have htoken := filterMap_move f (g := Piece.token?) (fun p => by cases p <;> rfl) ps
  simp only [tokensOf, List.findSome?_append, List.filterMap_append, unterminated?_tokens,
    invalid?_tokens,
    token?_tokens, unterminated?_move, hinvalid, htoken, Option.none_or, List.nil_append,
      List.isEmpty_map]
  cases ps.findSome? Piece.unterminated? with
  | some p => rfl
  | none =>
    simp only [Option.map_none]
    split_ifs <;> rfl

/-- Two readers that have the same lists open, one of them elsewhere and with the expressions `es`
before all that the other one has read. -/
inductive Beside (es : List Expr) : List Frame → List Expr → List Frame → List Expr → Prop where
  | top (done : List Expr) : Beside es [] (done.map (Expr.move f) ++ es.reverse) [] done
  | inner {opened opened' : List Frame} {before before' : List Expr} (p : Position)
      (done : List Expr) :
      Beside es opened' before' opened before →
      Beside es (⟨f p, before'⟩ :: opened') (done.map (Expr.move f)) (⟨p, before⟩ :: opened) done

theorem Beside.add {f : Position → Position} {es done done' : List Expr}
    {opened opened' : List Frame} (h : Beside f es opened' done' opened done) (e : Expr) :
    Beside f es opened' (e.move f :: done') opened (e :: done) := by
  cases h with
  | top done => exact .top (e :: done)
  | inner p done h => exact .inner p (e :: done) h

theorem Beside.finish {f : Position → Position} {es done done' : List Expr}
    {opened opened' : List Frame} (h : Beside f es opened' done' opened done) :
    finish opened' done' = moved f (fun fs => es ++ fs.map (Expr.move f)) (finish opened done) := by
  cases h with
  | top done => simp [ListLang.finish, moved]
  | inner p done h => rfl

/-- They read on in the same way. -/
theorem build_beside {es done done' : List Expr} {opened opened' : List Frame} (ts : List Token)
    (h : Beside f es opened' done' opened done) :
    build opened' done' (ts.map (Token.move f)) =
      moved f (fun fs => es ++ fs.map (Expr.move f)) (build opened done ts) := by
  induction ts generalizing opened opened' done done' with
  | nil => exact h.finish
  | cons t ts ih =>
    have hkind : (t.move f).kind = t.kind := rfl
    rw [List.map_cons]
    by_cases hend : t.kind = .endOfText
    · rw [build_endOfText _ _ _ hend, build_endOfText _ _ _ (hkind.trans hend)]
      exact h.finish
    by_cases hopen : t.kind = .openList
    · rw [build_openList _ _ _ hopen, build_openList _ _ _ (hkind.trans hopen)]
      exact ih (.inner t.pos [] h)
    by_cases hclose : t.kind = .closeList
    · cases h with
      | top done => simp [build, hclose, moved, Token.move, ReadError.move]
      | @inner _ _ before before' p done h =>
        -- the list goes to the expressions before it, in both readers
        rw [build_closeList _ _ _ _ hclose, build_closeList _ _ _ _ (hkind.trans hclose),
          ← List.map_reverse, ← Expr.moveAll_eq_map]
        exact ih (h.add (.list p done.reverse))
    by_cases hatom : t.kind.isAtom = true
    · rw [build_atom _ _ _ hatom, build_atom _ _ _ (hkind.symm ▸ hatom)]
      exact ih (h.add (.atom t))
    · simp [build, hend, hopen, hclose, hatom, moved, Token.move, ReadError.move]

end Move

/-! The seam. A space ends what stands before it, and what stands after it does not look back. -/

/-- Where a place of a text is once the text follows `line` line feeds and, on its first line,
`column` characters. -/
def Position.after (line column : Nat) (p : Position) : Position :=
  if p.line = 1 then ⟨line + 1, column + p.column⟩ else ⟨line + p.line, p.column⟩

/-- A character that is no line end, and does not begin one, is a glyph. -/
theorem glyphsFrom_cons (line column : Nat) {c : Char} {cs : List Char} (hc : c ≠ '\n')
    (hreturn : ∀ rest, c = '\r' → cs = '\n' :: rest → False) :
    glyphsFrom line column (c :: cs) = ⟨c, ⟨line + 1, column + 1⟩⟩ :: glyphsFrom line
      (column + 1) cs :=
  glyphsFrom.eq_4 _ _ _ _ hc hreturn

theorem glyphsFrom_after (line column l c : Nat) (cs : List Char) :
    glyphsFrom (line + l) (if l = 0 then column + c else c) cs =
      (glyphsFrom l c cs).map (Glyph.move (Position.after line column)) := by
  fun_induction glyphsFrom l c cs with
  | case1 => simp [glyphsFrom]
  | case2 l c cs ih =>
    rw [glyphsFrom, Nat.add_assoc]
    exact ih
  | case3 l c cs ih =>
    rw [glyphsFrom, Nat.add_assoc]
    exact ih
  | case4 l c d cs hd hreturn ih =>
    have hcolumn : (if l = 0 then column + c else c) + 1 = if l = 0 then column + (c + 1)
        else c + 1 := by
      split_ifs <;> omega
    have hplace : (⟨(line + l : Nat) + 1, (if l = 0 then column + c else c : Nat) + 1⟩ : Position) =
        Position.after line column ⟨l + 1, c + 1⟩ := by
      by_cases hl : l = 0
      · simp [Position.after, hl, Int.add_assoc]
      · have hline : (l : Int) + 1 ≠ 1 := by omega
        simp [Position.after, hl, hline, Int.add_assoc]
    rw [glyphsFrom_cons _ _ hd hreturn, List.map_cons, ← ih, hcolumn, hplace]
    rfl

theorem glyphsFrom_append_space (line column : Nat) (cs ds : List Char) :
    ∃ line' column' p, glyphsFrom line column (cs ++ ' ' :: ds) =
      glyphsFrom line column cs ++ ⟨' ', p⟩ :: glyphsFrom line' column' ds := by
  fun_induction glyphsFrom line column cs with
  | case1 line column =>
    exact ⟨line, column + 1, ⟨line + 1, column + 1⟩,
      glyphsFrom_cons line column (by decide) (by simp)⟩
  | case2 line column cs ih =>
    rw [List.cons_append, glyphsFrom]
    exact ih
  | case3 line column cs ih =>
    rw [List.cons_append, List.cons_append, glyphsFrom]
    exact ih
  | case4 line column c cs hc hreturn ih =>
    -- a carriage return at the end of `cs` now meets the space, which is no line feed either
    have hreturn : ∀ rest, c = '\r' → cs ++ ' ' :: ds = '\n' :: rest → False := by
      intro rest hc hcs
      cases cs with
      | nil => simp at hcs
      | cons d cs =>
        rw [List.cons_append] at hcs
        obtain ⟨rfl, -⟩ := List.cons.inj hcs
        exact hreturn cs hc rfl
    obtain ⟨line', column', p, ih⟩ := ih
    refine ⟨line', column', p, ?_⟩
    rw [List.cons_append, glyphsFrom_cons _ _ hc hreturn, ih, List.cons_append]

theorem absorbs_space (k : TokenKind) : k.absorbs ' ' = false := by
  cases k <;> rfl

section Cut

variable {g : Glyph} {rest left : List Glyph} {t : Token} (h : cut g rest = (.token t, left))
  (hn : ∀ u ∈ rest, u.char ≠ '\n')
include h hn

theorem left_subset_of_cut : left ⊆ rest := by
  have hcut := cutsLexeme_cut (g := g) hn
  rw [h] at hcut
  obtain ⟨us, rfl, -⟩ := hcut
  exact List.subset_append_right us left

theorem cut_append_space (p : Position) (gs : List Glyph) :
    cut g (rest ++ ⟨' ', p⟩ :: gs) = (.token t, left ++ ⟨' ', p⟩ :: gs) := by
  have hcut := cutsLexeme_cut (g := g) hn
  rw [h] at hcut
  obtain ⟨us, rfl, -, hlexeme, habsorbs⟩ := hcut
  have habsorbs' : ∀ u ∈ (left ++ ⟨' ', p⟩ :: gs).head?, t.kind.absorbs u.char = false := by
    intro u hu
    cases left with
    | nil =>
      rw [← Option.some.inj hu]
      exact absorbs_space t.kind
    | cons l left => exact habsorbs u hu
  -- both cuts are that of the same lexeme
  have ht := h.symm.trans (cut_of_lexeme hlexeme rfl habsorbs)
  rw [List.append_assoc, cut_of_lexeme hlexeme rfl habsorbs', ← (Prod.mk.inj ht).1]

end Cut

theorem pieces_append_space {gs : List Glyph} {ts : List Token} (h : pieces gs = ts.map Piece.token)
    (hn : ∀ g ∈ gs, g.char ≠ '\n') (p : Position) (gs' : List Glyph) :
    pieces (gs ++ ⟨' ', p⟩ :: gs') = ts.map Piece.token ++ pieces gs' := by
  fun_induction pieces gs generalizing ts with
  | case1 =>
    obtain rfl := List.map_eq_nil_iff.1 h.symm
    rw [List.nil_append, pieces, if_pos rfl]
    rfl
  | case2 g rest hg ih =>
    rw [List.cons_append, pieces, if_pos hg]
    exact ih h fun g hg => hn g (List.mem_cons_of_mem _ hg)
  | case3 g rest hg ih =>
    obtain ⟨t, ts, rfl, ht, hts⟩ := List.map_eq_cons_iff.1 h.symm
    have hrest : ∀ u ∈ rest, u.char ≠ '\n' := fun u hu => hn u (List.mem_cons_of_mem _ hu)
    have hcut : cut g rest = (.token t, (cut g rest).2) := by rw [ht]
    have hleft : ∀ u ∈ (cut g rest).2, u.char ≠ '\n' :=
      fun u hu => hrest u (left_subset_of_cut hcut hrest hu)
    rw [List.cons_append, pieces, if_neg hg, cut_append_space hcut hrest p, ih hts.symm hleft]
    rfl

theorem tokensOf_append_space {text : List Char} {ts : List Token}
    (h : pieces (glyphs text) = ts.map Piece.token) (text' : List Char) :
    ∃ line column, tokensOf (pieces (glyphs (text ++ ' ' :: text'))) =
      moved (.after line column) (fun us => ts ++ us.map (Token.move (.after line column)))
        (tokensOf (pieces (glyphs text'))) := by
  obtain ⟨line, column, p, hglyphs⟩ := glyphsFrom_append_space 0 0 text text'
  have hafter : glyphsFrom line column text' =
    (glyphs text').map (Glyph.move (.after line column)) :=
    glyphsFrom_after line column 0 0 text'
  have hpieces :=
    pieces_append_space h (glyphsFrom_ne_newline 0 0 text) p (glyphsFrom line column text')
  refine ⟨line, column, ?_⟩
  rw [glyphs, hglyphs, ← tokensOf_tokens_append, ← pieces_move, ← hafter, ← hpieces]
  rfl

/-- The end of the tokens needs no token of its own. -/
theorem build_append_endOfText {last : Token} (h : last.kind = .endOfText) (opened : List Frame)
    (done : List Expr)
    (ts : List Token) : build opened done (ts ++ [last]) = build opened done ts := by
  fun_induction build opened done ts with
  | case1 opened done => exact build_endOfText _ _ _ h
  | case2 opened done t ts hend => exact build_endOfText _ _ _ hend
  | case3 opened done t ts _ hopen ih =>
    rw [List.cons_append, build_openList _ _ _ hopen]
    exact ih
  | case4 done t ts _ _ hclose => simp [build, hclose]
  | case5 done t ts _ _ hclose f opened ih =>
    rw [List.cons_append, build_closeList _ _ _ _ hclose]
    exact ih
  | case6 opened done t ts _ _ _ hatom ih =>
    rw [List.cons_append, build_atom _ _ _ hatom]
    exact ih
  | case7 opened done t ts hend hopen hclose hatom => simp [build, hend, hopen, hclose, hatom]

theorem read_eq_build (text : List Char) : read text =
    match tokensOf (pieces (glyphs text)) with
    | .error e => .error e
    | .ok ts => build [] [] ts := by
  unfold read tokenize
  cases tokensOf (pieces (glyphs text)) with
  | error e => rfl
  | ok ts => exact build_append_endOfText rfl [] [] ts

/-- Reading a text that follows another one that can be read. -/
theorem read_append_space {text : List Char} {es : List Expr} (h : read text = .ok es)
    (text' : List Char) :
    ∃ line column, read (text ++ ' ' :: text') =
      moved (.after line column) (fun fs => es ++ fs.map (Expr.move (.after line column)))
        (read text') := by
  cases htokens : tokenize text with
  | error e =>
    rw [read, htokens] at h
    cases h
  | ok us =>
    obtain ⟨ts, rfl, hclosed⟩ := closed_of_tokenize htokens
    obtain ⟨hspelled, hflatten⟩ := (read_eq_ok_iff htokens hclosed es).1 h
    obtain ⟨ts', hts, heq⟩ := tokenize_eq_ok.1 htokens
    obtain rfl : ts = ts' := List.append_cancel_right heq
    obtain ⟨line, column, hjoined⟩ := tokensOf_append_space hts text'
    refine ⟨line, column, ?_⟩
    rw [read_eq_build, read_eq_build text', hjoined]
    cases tokensOf (pieces (glyphs text')) with
    | error e => rfl
    | ok us =>
      show build [] [] (ts ++ us.map (Token.move _)) = _
      rw [build_flattenAll es ts hspelled hflatten.symm, List.append_nil]
      exact build_beside _ us (.top [])

/-! Evaluation goes through the expressions in order, and nothing but the session goes from one to
the next. -/

theorem evalEach_append (ev : Expr → Eval Value) (es fs : List Expr) :
    evalEach ev (es ++ fs) =
      (do let vs ← evalEach ev es; let ws ← evalEach ev fs; pure (vs ++ ws)) := by
  induction es with
  | nil => simp [evalEach]
  | cons e es ih => simp [evalEach, ih]

/-- Runs two texts in turn, the second one only if the first was evaluated to its end, and puts
their values together. -/
def runInTurn (ctx : Context) (s : Session) (first second : List Char) : Outcome :=
  match runIn ctx s first with
  | ⟨.ok vs, s'⟩ => ⟨(runIn ctx s' second).result.map (vs ++ ·), (runIn ctx s' second).session⟩
  | ⟨.error e, s'⟩ => ⟨.error e, s'⟩

section Run

variable {ctx : Context} {s : Session} {text text' both : List Char} {es fs gs : List Expr}

/-- Nothing after a failure is evaluated. -/
theorem runIn_of_failure (hes : read text = .ok es) (hboth : read both = .ok (es ++ gs))
    {e : RunError} {s' : Session}
    (h : runIn ctx s text = ⟨.error e, s'⟩) : runIn ctx s both = ⟨.error e, s'⟩ := by
  simp only [runIn, hes] at h
  simp only [runIn, hboth, evalAll, evalEach_append]
  cases hs : evalEach (eval ctx ctx.fuel) es s with
  | ok vs t => simp [evalAll, hs] at h
  | error halt t =>
    rw [bind_of_error hs]
    simpa [evalAll, hs] using h

theorem runIn_inTurn (hblind : ctx.Blind) (hes : read text = .ok es) (hfs : read text' = .ok fs)
    (hboth : read both = .ok (es ++ gs)) (halike : Expr.AlikeAll gs fs) :
    (runIn ctx s both).shown = (runInTurn ctx s text text').shown := by
  cases hs : evalAll ctx es s with
  | error halt t =>
    have hfirst : runIn ctx s text = ⟨.error (.halt halt), t⟩ := by simp only [runIn, hes, hs]
    rw [runIn_of_failure hes hboth hfirst, runInTurn, hfirst]
  | ok vs t =>
    have hfirst : runIn ctx s text = ⟨.ok vs, t⟩ := by simp only [runIn, hes, hs]
    have hall : evalAll ctx (es ++ gs) s = (do let ws ← evalAll ctx gs; pure (vs ++ ws)) t := by
      rw [evalAll, evalEach_append]
      exact bind_of_ok hs
    rw [runInTurn, hfirst]
    rcases evalAll_alike hblind (.refl t) halike with ⟨ws, xs, t', u', hg, hf, hshown, hsame⟩ |
      ⟨e, t', u', hg, hf, hsame⟩
    · rw [bind_of_ok hg] at hall
      simp only [runIn, hboth, hfs, hall, hf]
      refine hsame.shown_eq ?_
      simp [Except.map, hshown]
    · rw [bind_of_error hg] at hall
      simp only [runIn, hboth, hfs, hall, hf]
      exact hsame.shown_eq rfl

end Run

/-- Two sources with a space between them. -/
def spaced (first second : List UInt8) : List UInt8 := first ++ 0x20 :: second

theorem decode_spaced (first second : List UInt8) :
    Text.decode (spaced first second) = Text.decode first ++ ' ' :: Text.decode second :=
  Text.decode_append_ascii (by decide) first second

/-- After a source that can be read and a space, a second source is read as it is by itself: to
expressions that are the same up to places, or to the same kind of error. All that a run shows is
what runs of the one and then the other show. What fails in the first source fails there whatever
follows, and a second source that cannot be read keeps the first from being evaluated. -/
theorem concatenation_runs_in_turn (first : List UInt8) (es : List Expr)
    (hes : readBytes first = .ok es) :
    (∀ second e, readBytes second = .error e → ∃ e', readBytes (spaced first second) = .error e' ∧
      e'.kind = e.kind ∧
      ∀ ctx s, runIn ctx s (Text.decode (spaced first second)) = ⟨.error (.read e'), s⟩) ∧
    ∀ second fs, readBytes second = .ok fs →
      (∃ gs, readBytes (spaced first second) = .ok gs ∧ Expr.sameAll gs (es ++ fs) = true ∧
        (Expr.nodesAll gs).map Expr.kind = (Expr.nodesAll (es ++ fs)).map Expr.kind) ∧
      (∀ ctx s, ctx.builtins = Builtin.defaults ∨ ctx.Blind →
        (runIn ctx s (Text.decode (spaced first second))).shown =
          (runInTurn ctx s (Text.decode first) (Text.decode second)).shown) ∧
      ∀ ctx s e s', runIn ctx s (Text.decode first) = ⟨.error e, s'⟩ →
        runIn ctx s (Text.decode (spaced first second)) = ⟨.error e, s'⟩ := by
  have hread : ∀ second, ∃ line column, readBytes (spaced first second) =
      moved (.after line column) (fun fs => es ++ fs.map (Expr.move (.after line column)))
        (readBytes second) := by
    intro second
    rw [readBytes, decode_spaced]
    exact read_append_space hes _
  refine ⟨fun second e he => ?_, fun second fs hfs => ?_⟩
  · obtain ⟨line, column, hspaced⟩ := hread second
    rw [he] at hspaced
    refine ⟨e.move (.after line column), hspaced, e.kind_move _, fun ctx s => ?_⟩
    simp only [runIn, show read (Text.decode (spaced first second)) = _ from hspaced, moved]
  · obtain ⟨line, column, hspaced⟩ := hread second
    rw [hfs] at hspaced
    have halike : Expr.AlikeAll (fs.map (Expr.move (.after line column))) fs := by
      rw [← Expr.moveAll_eq_map]
      exact Expr.alikeAll_moveAll _ fs
    have hforest := (Expr.AlikeAll.refl es).append halike
    refine ⟨⟨_, hspaced, hforest.sameAll_eq, hforest.nodesAll_kind⟩, ?_, ?_⟩
    · intro ctx s hctx
      have hblind : ctx.Blind := hctx.elim Context.blind_of_defaults id
      exact runIn_inTurn hblind hes hfs hspaced halike
    · intro ctx s e s' hfails
      exact runIn_of_failure hes hspaced hfails

/-- A definition and a number, which would go on into the next source but for the space. -/
def endsInNumber : List UInt8 := Text.bytes "(def f x \"(\")\n1"

def startsWithNumber : List UInt8 := Text.bytes "2 (f)\r\n(f)"

/-- A string that is opened and not closed, after one that would be if both were one source. -/
def unterminatedSource : List UInt8 := Text.bytes "\"(\" \")"

/-- A call of no function, and a minus sign. -/
def endsInMinus : List UInt8 := Text.bytes "(f) -"

theorem concatenation_runs_in_turn_numbers :
    ∃ es es' fs e, readBytes endsInNumber = .ok es ∧ readBytes endsInMinus = .ok es' ∧
      readBytes startsWithNumber = .ok fs ∧ readBytes unterminatedSource = .error e ∧
      (∃ e', readBytes (spaced endsInNumber unterminatedSource) = .error e' ∧ e'.kind = e.kind) ∧
      (∃ gs, readBytes (spaced endsInNumber startsWithNumber) = .ok gs ∧
        Expr.sameAll gs (es ++ fs) = true) ∧
      (∀ s, (runIn (.plain "run" "0x1") s
        (Text.decode (spaced endsInNumber startsWithNumber))).shown =
        (runInTurn (.plain "run" "0x1") s (Text.decode endsInNumber)
          (Text.decode startsWithNumber)).shown) ∧
      ∃ h s', run (.plain "run" "0x1") (Text.decode endsInMinus) = ⟨.error h, s'⟩ ∧
        run (.plain "run" "0x1") (Text.decode (spaced endsInMinus startsWithNumber)) =
          ⟨.error h, s'⟩ := by
  have hread : (readBytes endsInNumber).isOk = true ∧ (readBytes endsInMinus).isOk = true ∧
      (readBytes startsWithNumber).isOk = true ∧ (readBytes unterminatedSource).isOk = false := by
    decide +kernel
  have hfails : (run (.plain "run" "0x1") (Text.decode endsInMinus)).result.isOk = false := by
    decide +kernel
  obtain ⟨es, hes⟩ := exists_of_isOk hread.1
  obtain ⟨es', hes'⟩ := exists_of_isOk hread.2.1
  obtain ⟨fs, hfs⟩ := exists_of_isOk hread.2.2.1
  obtain ⟨e, he⟩ := exists_of_not_isOk hread.2.2.2
  obtain ⟨h, hh⟩ := exists_of_not_isOk hfails
  have hminus : run (.plain "run" "0x1") (Text.decode endsInMinus) =
      ⟨.error h, (run (.plain "run" "0x1") (Text.decode endsInMinus)).session⟩ := by
    rw [← hh]
  obtain ⟨hrefused, haccepted⟩ := concatenation_runs_in_turn endsInNumber es hes
  obtain ⟨e', he', hkind, -⟩ := hrefused unterminatedSource e he
  obtain ⟨⟨gs, hgs, hsame, -⟩, hturn, -⟩ := haccepted startsWithNumber fs hfs
  obtain ⟨-, -, hstays⟩ :=
    (concatenation_runs_in_turn endsInMinus es' hes').2 startsWithNumber fs hfs
  exact ⟨es, es', fs, e, hes, hes', hfs, he, ⟨e', he', hkind⟩, ⟨gs, hgs, hsame⟩,
    fun s => hturn _ s (Or.inl rfl), h, _, hminus, hstays _ _ _ _ hminus⟩

/-- A builtin that tells lines tells a source from the same one further down, and a second source
that cannot be read takes the definitions of the first with it. -/
theorem concatenation_differs_from_turns :
    (¬∀ (ctx : Context) (first second : List UInt8), (readBytes first).isOk = true →
      (readBytes second).isOk = true →
      (run ctx (Text.decode (spaced first second))).shown =
        (runInTurn ctx .start (Text.decode first) (Text.decode second)).shown) ∧
    ¬∀ (ctx : Context) (first second : List UInt8), ctx.Blind → (readBytes first).isOk = true →
      (run ctx (Text.decode (spaced first second))).shown.functions =
        (runInTurn ctx .start (Text.decode first) (Text.decode second)).shown.functions := by
  refine ⟨fun h => ?_, fun h => ?_⟩
  · have hjoined : (run lineTelling (Text.decode
        (spaced (Text.bytes "(\n)") (Text.bytes "(w 1)")))).shown.result.toOption =
          some [(.nil, ":nil"), (.int, "2")] := by
      decide +kernel
    have hturns : (runInTurn lineTelling .start (Text.decode (Text.bytes "(\n)"))
        (Text.decode (Text.bytes "(w 1)"))).shown.result.toOption =
          some [(.nil, ":nil"), (.int, "1")] := by
      decide +kernel
    rw [h lineTelling _ _ (by decide +kernel) (by decide +kernel), hturns] at hjoined
    exact absurd hjoined (by decide)
  · have hjoined : (run (.plain "run" "0x1")
        (Text.decode (spaced (Text.bytes "(def f () 1)") (Text.bytes "(")))).shown.functions =
          [] := by
      decide +kernel
    have hturns : (runInTurn (.plain "run" "0x1") .start (Text.decode (Text.bytes "(def f () 1)"))
        (Text.decode (Text.bytes "("))).shown.functions = [("f", "()", "1")] := by
      decide +kernel
    rw [h _ _ _ (Context.blind_of_defaults rfl) (by decide +kernel), hturns] at hjoined
    cases hjoined

end ListLang
