import ListLang.Proofs.Decomposition

/-! Where the glyphs of a text stand. A glyph is a character that is no part of a line end, and its
place is told by the text before it alone: the line by its line feeds, the column by the characters
after the last of them. -/

namespace ListLang

/-! Line ends. -/

/-- A character that ends a line, seen with what follows it: a line feed, or a carriage return right
before one. -/
def EndsLine (c : Char) (cs : List Char) : Prop := c = '\n' ∨ c = '\r' ∧ cs.head? = some '\n'

instance (c : Char) (cs : List Char) : Decidable (EndsLine c cs) :=
  inferInstanceAs (Decidable (_ ∨ _))

theorem strip_of_endsLine {c : Char} {cs : List Char} (h : EndsLine c cs) :
    strip (c :: cs) = strip cs := if_pos h

theorem strip_of_not_endsLine {c : Char} {cs : List Char} (h : ¬EndsLine c cs) :
    strip (c :: cs) = c :: strip cs :=
  if_neg h

theorem not_endsLine_iff {c : Char} {cs : List Char} :
    ¬EndsLine c cs ↔ c ≠ '\n' ∧ ∀ rest, c = '\r' → cs = '\n' :: rest → False := by
  constructor
  · refine fun h => ⟨fun hc => h (Or.inl hc), ?_⟩
    rintro rest hc rfl
    exact h (Or.inr ⟨hc, rfl⟩)
  · rintro ⟨hfeed, hreturn⟩ (hc | ⟨hc, hhead⟩)
    · exact hfeed hc
    · obtain ⟨rest, hrest⟩ := List.head?_eq_some_iff.1 hhead
      exact hreturn rest hc hrest

theorem not_endsLine_append {c : Char} {cs ds : List Char} (h : ¬EndsLine c (cs ++ ds)) :
    ¬EndsLine c cs := by
  rintro (hc | ⟨hc, hhead⟩)
  · exact h (Or.inl hc)
  · obtain ⟨cs', rfl⟩ := List.head?_eq_some_iff.1 hhead
    exact h (Or.inr ⟨hc, rfl⟩)

/-- Texts side by side lose their line ends each by itself, unless a carriage return and its line
feed are parted. -/
theorem strip_append {cs ds : List Char} (h : cs.getLast? = some '\r' → ds.head? ≠ some '\n') :
    strip (cs ++ ds) = strip cs ++ strip ds := by
  induction cs with
  | nil => rfl
  | cons c cs ih =>
    have hends : EndsLine c (cs ++ ds) ↔ EndsLine c cs := by
      cases cs with
      | nil =>
        refine or_congr_right (and_congr_right fun hc => ?_)
        simpa using h (by rw [hc]; rfl)
      | cons d cs => exact Iff.rfl
    have ih : strip (cs ++ ds) = strip cs ++ strip ds := by
      cases cs with
      | nil => rfl
      | cons d cs => exact ih fun hlast => h (by rw [List.getLast?_cons_cons, hlast])
    by_cases hc : EndsLine c cs
    · rw [List.cons_append, strip_of_endsLine (hends.2 hc), strip_of_endsLine hc, ih]
    · rw [List.cons_append, strip_of_not_endsLine (mt hends.1 hc), strip_of_not_endsLine hc, ih,
        List.cons_append]

/-- A character that is no line feed keeps the text before it as it is. -/
theorem strip_append_cons {c : Char} (hc : c ≠ '\n') (cs ds : List Char) :
    strip (cs ++ c :: ds) = strip cs ++ strip (c :: ds) :=
  strip_append fun _ => by simpa using hc

theorem strip_of_newline_notMem {cs : List Char} (h : '\n' ∉ cs) : strip cs = cs := by
  rw [← glyphsFrom_map_strip 0 0, glyphsFrom_map_char 0 0 cs h]

theorem strip_strip (cs : List Char) : strip (strip cs) = strip cs :=
  strip_of_newline_notMem (newline_notMem_strip cs)

theorem count_strip {c : Char} (hfeed : c ≠ '\n') (hreturn : c ≠ '\r') (cs : List Char) :
    (strip cs).count c = cs.count c := by
  induction cs with
  | nil => rfl
  | cons d cs ih =>
    by_cases hd : EndsLine d cs
    · have hne : d ≠ c := by
        rintro rfl
        exact hd.elim hfeed fun h => hreturn h.1
      rw [strip_of_endsLine hd, ih, List.count_cons_of_ne hne]
    · rw [strip_of_not_endsLine hd, List.count_cons, List.count_cons, ih]

/-! Places. -/

/-- How many lines end in a text. -/
def linesOf (before : List Char) : Nat := before.count '\n'

/-- How many characters a text has on its last line. -/
def columnsOf (before : List Char) : Nat := (before.reverse.takeWhile (· != '\n')).length

/-- The place of what follows a text. -/
def place (before : List Char) : Position := ⟨linesOf before + 1, columnsOf before + 1⟩

section Snoc

variable (before : List Char)

theorem linesOf_newline : linesOf (before ++ ['\n']) = linesOf before + 1 := by simp [linesOf]

theorem columnsOf_newline : columnsOf (before ++ ['\n']) = 0 := by simp [columnsOf]

theorem linesOf_snoc {c : Char} (hc : c ≠ '\n') : linesOf (before ++ [c]) = linesOf before := by
  simp [linesOf, hc]

theorem columnsOf_snoc {c : Char} (hc : c ≠ '\n') :
    columnsOf (before ++ [c]) = columnsOf before + 1 := by
  simp [columnsOf, hc]

end Snoc

/-- The glyphs of the second part of a text. -/
def glyphsAfter (before cs : List Char) : List Glyph :=
  glyphsFrom (linesOf before) (columnsOf before) cs

theorem glyphs_eq_glyphsAfter (text : List Char) : glyphs text = glyphsAfter [] text := rfl

theorem glyphsAfter_map_char (before cs : List Char) :
    (glyphsAfter before cs).map Glyph.char = strip cs :=
  glyphsFrom_map_strip _ _ cs

theorem glyphsAfter_ne_newline (before cs : List Char) :
    ∀ g ∈ glyphsAfter before cs, g.char ≠ '\n' :=
  glyphsFrom_ne_newline _ _ cs

theorem glyphsAfter_of_endsLine {c : Char} {cs : List Char} (before : List Char)
    (h : EndsLine c cs) :
    glyphsAfter before (c :: cs) = glyphsAfter (before ++ [c]) cs := by
  rcases h with rfl | ⟨rfl, hhead⟩
  · rw [glyphsAfter, glyphsAfter, glyphsFrom, linesOf_newline, columnsOf_newline]
  · -- the line feed that follows starts a new line from any column
    obtain ⟨cs', rfl⟩ := List.head?_eq_some_iff.1 hhead
    rw [glyphsAfter, glyphsAfter, glyphsFrom, glyphsFrom, linesOf_snoc _ (by decide)]

theorem glyphsAfter_of_not_endsLine {c : Char} {cs : List Char} (before : List Char)
    (h : ¬EndsLine c cs) :
    glyphsAfter before (c :: cs) = ⟨c, place before⟩ :: glyphsAfter (before ++ [c]) cs := by
  obtain ⟨hc, hreturn⟩ := not_endsLine_iff.1 h
  rw [glyphsAfter, glyphsAfter, glyphsFrom.eq_4 _ _ _ _ hc hreturn, linesOf_snoc _ hc,
    columnsOf_snoc _ hc]
  rfl

theorem endFrom_eq_place (before cs : List Char) :
    endFrom (linesOf before) (columnsOf before) cs = place (before ++ cs) := by
  induction cs generalizing before with
  | nil => rw [List.append_nil]; rfl
  | cons c cs ih =>
    rw [List.append_cons, ← ih]
    by_cases h : EndsLine c cs
    · rcases h with rfl | ⟨rfl, hhead⟩
      · rw [endFrom, linesOf_newline, columnsOf_newline]
      · obtain ⟨cs', rfl⟩ := List.head?_eq_some_iff.1 hhead
        rw [endFrom, endFrom, linesOf_snoc _ (by decide)]
    · obtain ⟨hc, hreturn⟩ := not_endsLine_iff.1 h
      rw [endFrom.eq_4 _ _ _ _ hc hreturn, linesOf_snoc _ hc, columnsOf_snoc _ hc]

theorem endPosition_eq_place (text : List Char) : endPosition text = place text :=
  endFrom_eq_place [] text

/-- The first glyph stands after line ends, and the others come from what follows it. -/
theorem glyphsAfter_eq_cons {before cs : List Char} {g : Glyph} {gs : List Glyph}
    (h : glyphsAfter before cs = g :: gs) :
    ∃ lead rest, cs = lead ++ g.char :: rest ∧ strip lead = [] ∧ ¬EndsLine g.char rest ∧
      g.pos = place (before ++ lead) ∧ gs = glyphsAfter (before ++ lead ++ [g.char]) rest := by
  induction cs generalizing before with
  | nil => cases h
  | cons c cs ih =>
    by_cases hc : EndsLine c cs
    · rw [glyphsAfter_of_endsLine before hc] at h
      obtain ⟨lead, rest, rfl, hlead, hkept, hpos, hgs⟩ := ih h
      refine ⟨c :: lead, rest, rfl, ?_, hkept,
        by rw [hpos, List.append_assoc]; rfl, by rw [hgs]; simp⟩
      -- what follows `c` is a line end too, or the glyph, which is no line feed
      have hends : EndsLine c lead := by
        refine hc.imp_right (And.imp_right fun hhead => ?_)
        cases lead with
        | nil => exact absurd (Or.inl (Option.some.inj hhead)) hkept
        | cons d lead => exact hhead
      rw [strip_of_endsLine hends, hlead]
    · rw [glyphsAfter_of_not_endsLine before hc] at h
      obtain ⟨rfl, rfl⟩ := List.cons.inj h
      exact ⟨[], cs, rfl, rfl, hc, by rw [List.append_nil], by rw [List.append_nil]⟩

/-- A row of glyphs at the front comes from a front part of the text. -/
theorem glyphsAfter_eq_append {before cs : List Char} {us vs : List Glyph}
    (h : glyphsAfter before cs = us ++ vs) :
    ∃ run rest, cs = run ++ rest ∧ strip run = us.map Glyph.char ∧ vs =
      glyphsAfter (before ++ run) rest := by
  induction us generalizing before cs with
  | nil => exact ⟨[], cs, rfl, rfl, by rw [List.append_nil]; exact h.symm⟩
  | cons g us ih =>
    obtain ⟨lead, rest, rfl, hlead, hkept, -, hrest⟩ := glyphsAfter_eq_cons h
    obtain ⟨run, rest, rfl, hrun, hvs⟩ := ih hrest.symm
    refine ⟨lead ++ g.char :: run, rest, by simp, ?_, by rw [hvs]; simp⟩
    have hg : g.char ≠ '\n' := fun hg => hkept (Or.inl hg)
    rw [strip_append_cons hg, hlead, List.nil_append,
      strip_of_not_endsLine (not_endsLine_append hkept), hrun, List.map_cons]

end ListLang
