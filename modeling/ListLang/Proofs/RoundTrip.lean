import ListLang.Expr.Reader
import ListLang.Proofs.Alike
import ListLang.Proofs.Utf8

/-! Printed expressions are read back as they were, up to places, and all that is ever read can be
printed so. Printing goes through the lexemes of an expression: the printed text spells them, and
the reader builds from them an expression alike. -/

namespace ListLang

namespace Expr

mutual

/-- The lexemes of an expression, parentheses included. -/
def lexemes : Expr → List (TokenKind × List Char)
  | atom t => [t.lexeme]
  | list _ es => (.openList, ['(']) :: lexemesAll es ++ [(.closeList, [')'])]

def lexemesAll : List Expr → List (TokenKind × List Char)
  | [] => []
  | e :: es => lexemes e ++ lexemesAll es

end

end Expr

open ListLang.Expr

/-! Printed text spells the lexemes. -/

/-- What may follow a printed expression. -/
def Delimited (cs : List Char) : Prop := ∀ c ∈ cs.head?, c = ' ' ∨ c = ')'

theorem Delimited.not_absorbed {cs : List Char} (h : Delimited cs) (k : TokenKind) :
    ∀ c ∈ cs.head?, k.absorbs c = false := by
  intro c hc
  rcases h c hc with rfl | rfl
  · cases k <;> decide
  · cases k <;> decide

theorem Spells.newline_notMem {cs : List Char} {ls : List (TokenKind × List Char)}
    (h : Spells cs ls) :
    '\n' ∉ cs := by
  induction h with
  | nil => simp
  | space _ ih => simpa using ih
  | lexeme hl _ _ ih =>
    intro hm
    rcases List.mem_append.1 hm with hm | hm
    · exact hl.newline_notMem hm
    · exact ih hm

theorem Spells.lexeme_of_mem {cs : List Char} {ls : List (TokenKind × List Char)}
    (h : Spells cs ls) :
    ∀ l ∈ ls, Lexeme l.1 l.2 := by
  induction h with
  | nil => simp
  | space _ ih => exact ih
  | lexeme hl _ _ ih =>
    intro l hm
    rcases List.mem_cons.1 hm with rfl | hm
    · exact hl
    · exact ih l hm

theorem Spells.openList {cs : List Char} {ls : List (TokenKind × List Char)} (h : Spells cs ls) :
    Spells ('(' :: cs) ((.openList, ['(']) :: ls) :=
  .lexeme .openList (fun _ _ => rfl) h

theorem Spells.closeList {cs : List Char} {ls : List (TokenKind × List Char)} (h : Spells cs ls) :
    Spells (')' :: cs) ((.closeList, [')']) :: ls) :=
  .lexeme .closeList (fun _ _ => rfl) h

mutual

theorem spells_encode : ∀ (e : Expr) {rest : List Char} {ls : List (TokenKind × List Char)},
    e.WellSpelled → Delimited rest → Spells rest ls →
      Spells (e.encode.toList ++ rest) (e.lexemes ++ ls)
  | atom t, rest, ls, hw, hd, hs => .lexeme hw.1 (hd.not_absorbed _) hs
  | list p es, rest, ls, hw, hd, hs => by
    have hclose : Delimited (')' :: rest) := by simp [Delimited]
    have h := (spells_encodeAll es hw hclose hs.closeList).openList
    simpa [encode, lexemes] using h

theorem spells_encodeAll :
    ∀ (es : List Expr) {rest : List Char} {ls : List (TokenKind × List Char)},
    AllWellSpelled es → Delimited rest → Spells rest ls →
      Spells ((encodeAll es).toList ++ rest) (lexemesAll es ++ ls)
  | [], rest, ls, _, _, hs => by simpa [encodeAll, lexemesAll] using hs
  | [e], rest, ls, hw, hd, hs => by
    have h := spells_encode e hw.1 hd hs
    simpa [encodeAll, lexemesAll] using h
  | e :: e' :: es, rest, ls, hw, hd, hs => by
    have hspace : Delimited (' ' :: ((encodeAll (e' :: es)).toList ++ rest)) := by simp [Delimited]
    have h := spells_encode e hw.1 hspace (.space (spells_encodeAll (e' :: es) hw.2 hd hs))
    simpa [encodeAll_cons_cons, lexemesAll] using h

end

/-! From lexemes back to expressions. -/

section Build

variable {t : Token} (opened : List Frame) (done : List Expr) (ts : List Token)

theorem build_openList (h : t.kind = .openList) :
    build opened done (t :: ts) = build (⟨t.pos, done⟩ :: opened) [] ts := by
  simp [build, h]

theorem build_closeList (f : Frame) (h : t.kind = .closeList) :
    build (f :: opened) done (t :: ts) =
      build opened (.list f.opening done.reverse :: f.before) ts := by
  simp [build, h]

theorem build_atom (h : t.kind.isAtom = true) :
    build opened done (t :: ts) = build opened (.atom t :: done) ts := by
  have hk : t.kind ≠ .endOfText ∧ t.kind ≠ .openList ∧ t.kind ≠ .closeList := by
    refine ⟨?_, ?_, ?_⟩ <;> intro hk <;> rw [hk] at h <;> cases h
  simp [build, h, hk]

theorem build_endOfText (h : t.kind = .endOfText) :
    build opened done (t :: ts) = finish opened done := by
  simp [build, h]

end Build

theorem Lexeme.isAtom {k : TokenKind} {w : List Char} (h : Lexeme k w) (ho : k ≠ .openList)
    (hc : k ≠ .closeList) : k.isAtom = true := by
  cases h <;> first | rfl | contradiction

mutual

theorem build_lexemes :
    ∀ (e : Expr) (ts : List Token), e.WellSpelled → ts.map Token.lexeme = e.lexemes →
    ∃ e', Alike e e' ∧ ∀ opened done us, build opened done (ts ++ us) = build opened (e' :: done) us
  | atom t, ts, hw, hts => by
    obtain ⟨u, vs, rfl, hu, hvs⟩ := List.map_eq_cons_iff.1 hts
    obtain rfl := List.map_eq_nil_iff.1 hvs
    obtain ⟨hkind, htext⟩ := Prod.mk.inj hu
    refine ⟨.atom u, ⟨hkind.symm, String.toList_inj.1 htext.symm⟩, fun opened done us => ?_⟩
    exact build_atom opened done us (hkind ▸ hw.1.isAtom hw.2.1 hw.2.2)
  | list p es, ts, hw, hts => by
    rw [lexemes, List.cons_append] at hts
    obtain ⟨o, vs, rfl, ho, hvs⟩ := List.map_eq_cons_iff.1 hts
    obtain ⟨us, cs, rfl, hus, hcs⟩ := List.map_eq_append_iff.1 hvs
    obtain ⟨c, ws, rfl, hc, hws⟩ := List.map_eq_cons_iff.1 hcs
    obtain rfl := List.map_eq_nil_iff.1 hws
    obtain ⟨es', halike, hbuild⟩ := build_lexemesAll es us hw hus
    refine ⟨.list o.pos es', halike, fun opened done us => ?_⟩
    rw [List.cons_append, build_openList _ _ _ (Prod.mk.inj ho).1, List.append_assoc, hbuild,
      List.singleton_append, build_closeList _ _ _ _ (Prod.mk.inj hc).1]
    simp

theorem build_lexemesAll : ∀ (es : List Expr) (ts : List Token), AllWellSpelled es →
    ts.map Token.lexeme = lexemesAll es →
      ∃ es', AlikeAll es es' ∧
        ∀ opened done us, build opened done (ts ++ us) = build opened (es'.reverse ++ done) us
  | [], ts, _, hts => by
    obtain rfl := List.map_eq_nil_iff.1 hts
    exact ⟨[], trivial, fun _ _ _ => rfl⟩
  | e :: es, ts, hw, hts => by
    rw [lexemesAll] at hts
    obtain ⟨ts, us, rfl, hts, hus⟩ := List.map_eq_append_iff.1 hts
    obtain ⟨e', he, hbuild⟩ := build_lexemes e ts hw.1 hts
    obtain ⟨es', hes, hbuildAll⟩ := build_lexemesAll es us hw.2 hus
    refine ⟨e' :: es', ⟨he, hes⟩, fun opened done vs => ?_⟩
    rw [List.append_assoc, hbuild, hbuildAll]
    simp

end

/-- What is printed is read back alike. -/
theorem read_encodeAll {es : List Expr} (h : AllWellSpelled es) :
    ∃ es', read (encodeAll es).toList = .ok es' ∧ AlikeAll es es' := by
  have hs : Spells (encodeAll es).toList (lexemesAll es) := by
    have hnil : Delimited [] := by simp [Delimited]
    simpa using spells_encodeAll es h hnil .nil
  obtain ⟨ts, htok, hts⟩ := tokenize_of_spells hs hs.newline_notMem
  obtain ⟨es', halike, hbuild⟩ := build_lexemesAll es ts h hts
  refine ⟨es', ?_, halike⟩
  rw [read, htok]
  simp only [forest]
  rw [hbuild, build_endOfText _ _ _ rfl]
  simp [finish]

/-! All that is read is well spelled. -/

theorem finish_wellSpelled {opened : List Frame} {done es : List Expr}
    (h : finish opened done = .ok es)
    (hdone : ∀ e ∈ done, e.WellSpelled) : ∀ e ∈ es, e.WellSpelled := by
  cases opened with
  | nil =>
    obtain rfl := Except.ok.inj h
    simpa using hdone
  | cons f opened => cases h

/-- Building keeps everything well spelled, as long as all tokens before the end are lexemes. -/
theorem build_wellSpelled {opened : List Frame} {done es : List Expr} {ts : List Token}
    (h : build opened done ts = .ok es)
    (hts : ∀ t ∈ ts, t.kind = .endOfText ∨ Lexeme t.kind t.text.toList)
    (hopened : ∀ f ∈ opened, ∀ e ∈ f.before, e.WellSpelled) (hdone : ∀ e ∈ done, e.WellSpelled) :
    ∀ e ∈ es, e.WellSpelled := by
  fun_induction build opened done ts with
  | case1 opened done => exact finish_wellSpelled h hdone
  | case2 opened done t ts hend => exact finish_wellSpelled h hdone
  | case3 opened done t ts hend hopen ih =>
    refine ih h (fun u hu => hts u (List.mem_cons_of_mem _ hu)) (fun f hf => ?_) (by simp)
    rcases List.mem_cons.1 hf with rfl | hf
    · exact hdone
    · exact hopened f hf
  | case4 done t ts hend hopen hclose => cases h
  | case5 done t ts hend hopen hclose f opened ih =>
    refine ih h (fun u hu => hts u (List.mem_cons_of_mem _ hu))
      (fun g hg => hopened g (List.mem_cons_of_mem _ hg)) (fun e he => ?_)
    rcases List.mem_cons.1 he with rfl | he
    · exact allWellSpelled_iff.2 (by simpa using hdone)
    · exact hopened f List.mem_cons_self e he
  | case6 opened done t ts hend hopen hclose hatom ih =>
    refine ih h (fun u hu => hts u (List.mem_cons_of_mem _ hu)) hopened (fun e he => ?_)
    rcases List.mem_cons.1 he with rfl | he
    · exact ⟨(hts t List.mem_cons_self).resolve_left hend, hopen, hclose⟩
    · exact hdone e he
  | case7 opened done t ts hend hopen hclose hatom => cases h

theorem read_wellSpelled {text : List Char} {es : List Expr} (h : read text = .ok es) :
    AllWellSpelled es := by
  unfold read at h
  split at h
  · cases h
  · rename_i us htok
    obtain ⟨ts, rfl, hs⟩ := spells_of_tokenize htok
    refine allWellSpelled_iff.2 (build_wellSpelled h (fun t ht => ?_) (by simp) (by simp))
    rcases List.mem_append.1 ht with ht | ht
    · exact Or.inr (hs.lexeme_of_mem _ (List.mem_map_of_mem ht))
    · exact Or.inl (by rw [List.mem_singleton.1 ht]; rfl)

theorem readBytes_bytes (s : String) : readBytes (Text.bytes s) = read s.toList := by
  rw [readBytes, Text.decode_bytes]

/-- Every byte sequence that is accepted is read as a well-spelled forest. A well-spelled forest,
once printed, is read back with the same shape, kinds and texts, and so is printed the same
again. -/
theorem print_read_round_trip :
    (∀ (source : List UInt8) (es : List Expr), readBytes source = .ok es → AllWellSpelled es) ∧
    (∀ es : List Expr, AllWellSpelled es →
      ∃ es', readBytes (Text.bytes (encodeAll es)) = .ok es' ∧ es'.length = es.length ∧
        sameAll es es' = true ∧ AlikeAll es es' ∧ encodeAll es' = encodeAll es) ∧
    (∀ (source : List UInt8) (es : List Expr), readBytes source = .ok es →
      ∃ es', readBytes (Text.bytes (encodeAll es)) = .ok es' ∧ encodeAll es' = encodeAll es) := by
  have hread : ∀ (source : List UInt8) (es : List Expr), readBytes source = .ok es →
    AllWellSpelled es :=
    fun _ _ h => read_wellSpelled h
  have hprint : ∀ es : List Expr, AllWellSpelled es →
      ∃ es', readBytes (Text.bytes (encodeAll es)) = .ok es' ∧ es'.length = es.length ∧
        sameAll es es' = true ∧ AlikeAll es es' ∧ encodeAll es' = encodeAll es := by
    intro es hes
    obtain ⟨es', hok, halike⟩ := read_encodeAll hes
    exact ⟨es', by rw [readBytes_bytes, hok], halike.length_eq.symm, halike.sameAll_eq, halike,
      halike.encodeAll_eq.symm⟩
  refine ⟨hread, hprint, fun source es h => ?_⟩
  obtain ⟨es', hok, -, -, -, hencode⟩ := hprint es (hread source es h)
  exact ⟨es', hok, hencode⟩

/-- Neighbours that would fuse or split if they were printed without care: a minus before a negative
number, a word that ends in a dash, a string with a parenthesis and a carriage return, an empty
list. -/
def hardNeighbours : List Expr :=
  [.list ⟨1, 1⟩ [.atom ⟨.minus, "-", ⟨1, 2⟩⟩, .atom ⟨.numeric, "-1.", ⟨1, 4⟩⟩,
    .atom ⟨.word, "a-", ⟨1, 8⟩⟩,
    .list ⟨1, 11⟩ []], .atom ⟨.text, "\") \r\"", ⟨1, 15⟩⟩, .atom ⟨.numeric, "2", ⟨1, 20⟩⟩]

theorem hardNeighbours_wellSpelled : AllWellSpelled hardNeighbours := by
  have hnegative : Lexeme .numeric ['-', '1', '.'] := .negative (by decide) (by simp)
  have hword : Lexeme .word ['a', '-'] := .word (by decide) (by simp)
  have htext : Lexeme .text ['"', ')', ' ', '\r', '"'] := @Lexeme.text [')', ' ', '\r'] (by simp)
  have hnumeric : Lexeme .numeric ['2'] := .numeric (by decide) (by simp)
  simp [hardNeighbours, AllWellSpelled, WellSpelled, Lexeme.minus, hnegative, hword,
    htext, hnumeric]

theorem print_read_round_trip_hardNeighbours :
    AllWellSpelled hardNeighbours ∧
    ∃ es, readBytes (Text.bytes (encodeAll hardNeighbours)) = .ok es ∧ AlikeAll hardNeighbours es ∧
      AllWellSpelled es ∧ ∃ es', readBytes (Text.bytes (encodeAll es)) = .ok es' ∧
        encodeAll es' = encodeAll es := by
  obtain ⟨es, hes, -, -, halike, -⟩ := print_read_round_trip.2.1 _ hardNeighbours_wellSpelled
  exact ⟨hardNeighbours_wellSpelled, es, hes, halike, print_read_round_trip.1 _ es hes,
    print_read_round_trip.2.2 _ es hes⟩

end ListLang
