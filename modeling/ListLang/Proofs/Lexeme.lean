import ListLang.Lexer
import Mathlib.Data.List.TakeWhile

/-! The lexemes of the language. A lexeme that cannot go on is cut as one token, and every token
that is cut is such a lexeme. -/

namespace ListLang

/-- The texts that belong to a kind of token. -/
inductive Lexeme : TokenKind → List Char → Prop where
  | openList : Lexeme .openList ['(']
  | closeList : Lexeme .closeList [')']
  | plus : Lexeme .plus ['+']
  | minus : Lexeme .minus ['-']
  | star : Lexeme .star ['*']
  | slash : Lexeme .slash ['/']
  | percent : Lexeme .percent ['%']
  | quote : Lexeme .quote ['\'']
  | word {c : Char} {cs : List Char} (first : c.isAlpha = true)
      (rest : ∀ d ∈ cs, d.isAlpha = true ∨ d = '-') : Lexeme .word (c :: cs)
  | numeric {c : Char} {cs : List Char} (first : c.isDigit = true)
      (rest : ∀ d ∈ cs, d.isDigit = true ∨ d = '.') : Lexeme .numeric (c :: cs)
  | negative {c : Char} {cs : List Char} (first : c.isDigit = true)
      (rest : ∀ d ∈ cs, d.isDigit = true ∨ d = '.') : Lexeme .numeric ('-' :: c :: cs)
  | text {cs : List Char} (inner : ∀ c ∈ cs, c ≠ '"' ∧ c ≠ '\n') : Lexeme .text ('"' :: cs ++ ['"'])

/-- The characters that a lexeme of this kind would take in if they came right after it. -/
def TokenKind.absorbs : TokenKind → Char → Bool
  | .word, c => c.isAlpha || c = '-'
  | .numeric, c => c.isDigit || c = '.'
  | .minus, c => c.isDigit
  | _, _ => false

theorem Lexeme.ne_nil {k : TokenKind} {w : List Char} (h : Lexeme k w) : w ≠ [] := by
  cases h <;> simp

theorem Lexeme.head_ne_space {k : TokenKind} {c : Char} {cs : List Char} (h : Lexeme k (c :: cs)) :
    c ≠ ' ' := by
  rintro rfl
  cases h <;> contradiction

/-- Letters, digits and the marks of the language. -/
def isLexical (c : Char) : Bool :=
  ['(', ')', '+', '-', '*', '/', '%', '\'', '.'].contains c || c.isAlpha || c.isDigit

/-- Only strings hold other characters. -/
theorem Lexeme.isLexical_of_mem {k : TokenKind} {w : List Char} (h : Lexeme k w) (hk : k ≠ .text) :
    ∀ c ∈ w, isLexical c = true := by
  have halpha : ∀ {c : Char}, c.isAlpha = true → isLexical c = true :=
    fun hc => by simp [isLexical, hc]
  have hdigit : ∀ {c : Char}, c.isDigit = true → isLexical c = true :=
    fun hc => by simp [isLexical, hc]
  have hnumeric : ∀ {c : Char} {cs : List Char}, c.isDigit = true →
    (∀ d ∈ cs, d.isDigit = true ∨ d = '.') →
      ∀ d ∈ c :: cs, isLexical d = true := by
    intro c cs hc hcs
    refine List.forall_mem_cons.2 ⟨hdigit hc, fun d hd => ?_⟩
    rcases hcs d hd with hd | rfl
    · exact hdigit hd
    · decide
  cases h with
  | word first rest =>
    refine List.forall_mem_cons.2 ⟨halpha first, fun d hd => ?_⟩
    rcases rest d hd with hd | rfl
    · exact halpha hd
    · decide
  | numeric first rest => exact hnumeric first rest
  | negative first rest => exact List.forall_mem_cons.2 ⟨by decide, hnumeric first rest⟩
  | text inner => exact absurd rfl hk
  | _ => simp [isLexical]

theorem Lexeme.space_notMem {k : TokenKind} {w : List Char} (h : Lexeme k w) (hk : k ≠ .text) :
    ' ' ∉ w :=
  fun hm => absurd (h.isLexical_of_mem hk _ hm) (by decide)

theorem Lexeme.newline_notMem {k : TokenKind} {w : List Char} (h : Lexeme k w) : '\n' ∉ w := by
  intro hm
  by_cases hk : k = .text
  · obtain rfl := hk
    cases h with
    | @text cs inner =>
      have hm : '\n' ∈ cs := by simpa using hm
      exact (inner _ hm).2 rfl
  · exact absurd (h.isLexical_of_mem hk _ hm) (by decide)

theorem isDigit_of_isAlpha {c : Char} (h : c.isAlpha = true) : c.isDigit = false := by
  have ha : c.isAlpha = (decide (c.val ≥ 65 ∧ c.val ≤ 90) || c.val ≥ 97 && c.val ≤ 122) := rfl
  have hd : c.isDigit = (c.val ≥ 48 && c.val ≤ 57) := rfl
  rw [ha] at h
  rw [hd]
  simp only [Bool.or_eq_true, Bool.and_eq_true, decide_eq_true_eq, Bool.and_eq_false_iff,
    decide_eq_false_iff_not, ge_iff_le, UInt32.le_iff_toNat_le, UInt32.reduceToNat] at h ⊢
  omega

theorem ne_of_class {p : Char → Bool} {c d : Char} (hc : p c = true) (hd : p d = false) :
    c ≠ d := by
  rintro rfl
  rw [hc] at hd
  cases hd

/-! The first character decides what is cut. -/

section Cut

variable {g : Glyph} {rest : List Glyph}

theorem markKind?_of_isAlpha {c : Char} (h : c.isAlpha = true) : markKind? c = none := by
  unfold markKind?
  split <;> first | rfl | exact absurd h (by decide)

theorem markKind?_of_isDigit {c : Char} (h : c.isDigit = true) : markKind? c = none := by
  unfold markKind?
  split <;> first | rfl | exact absurd h (by decide)

theorem lexeme_of_markKind? {c : Char} {k : TokenKind} (h : markKind? c = some k) :
    Lexeme k [c] := by
  unfold markKind? at h
  split at h <;> cases h <;> constructor

theorem absorbs_of_markKind? {c : Char} {k : TokenKind} (h : markKind? c = some k) (d : Char) :
    k.absorbs d = false := by
  unfold markKind? at h
  split at h <;> cases h <;> rfl

theorem cut_mark {k : TokenKind} (h : markKind? g.char = some k) :
    cut g rest = (.token ⟨k, Glyph.text [g], g.pos⟩, rest) := by
  simp only [cut, h]

theorem cut_doubleQuote (h : g.char = '"') : cut g rest = cutString g rest := by
  simp [cut, h, markKind?]

theorem cut_digit (h : g.char.isDigit = true) :
    cut g rest = cutRun .numeric isNumericBody g rest := by
  have hq : g.char ≠ '"' := ne_of_class h (by decide)
  simp [cut, markKind?_of_isDigit h, hq, h]

theorem cut_dash (h : g.char = '-') :
    cut g rest = if (rest.head?.map fun h => h.char.isDigit) = some true
      then cutRun .numeric isNumericBody g rest
        else (.token ⟨.minus, Glyph.text [g], g.pos⟩, rest) := by
  simp [cut, h, markKind?, show '-'.isDigit = false by decide]

theorem cut_alpha (h : g.char.isAlpha = true) : cut g rest = cutRun .word isWordBody g rest := by
  have hq : g.char ≠ '"' := ne_of_class h (by decide)
  have hm : g.char ≠ '-' := ne_of_class h (by decide)
  simp [cut, markKind?_of_isAlpha h, hq, hm, isDigit_of_isAlpha h, h]

/-- A run ends where its class ends. -/
theorem cutRun_append {kind : TokenKind} {body : Char → Bool} {gs : List Glyph}
    (hgs : ∀ h ∈ gs, body h.char = true) (hrest : ∀ h ∈ rest.head?, body h.char = false) :
    cutRun kind body g (gs ++ rest) = (.token ⟨kind, Glyph.text (g :: gs), g.pos⟩, rest) := by
  have hnil : rest.takeWhile (fun h => body h.char) = [] ∧ rest.dropWhile (fun h => body h.char) =
      rest := by
    cases rest with
    | nil => exact ⟨rfl, rfl⟩
    | cons r rest => simp [hrest r rfl]
  rw [cutRun, List.takeWhile_append_of_pos hgs, List.dropWhile_append_of_pos hgs, hnil.1, hnil.2,
    List.append_nil]

theorem cutString_append {q : Glyph} {gs : List Glyph} (hgs : ∀ h ∈ gs, h.char ≠ '"')
    (hq : q.char = '"') :
    cutString g (gs ++ q :: rest) = (.token ⟨.text, Glyph.text (g :: gs ++ [q]), g.pos⟩, rest) := by
  have hgs : ∀ h ∈ gs, (h.char != '"') = true := fun h hh => by simpa using hgs h hh
  rw [cutString, List.dropWhile_append_of_pos hgs, List.takeWhile_append_of_pos hgs]
  simp [hq]

end Cut

/-- Where a lexeme stands and what follows is not absorbed, the lexeme is cut. -/
theorem cut_of_lexeme {k : TokenKind} {w : List Char} {g : Glyph} {gs rest : List Glyph}
    (hl : Lexeme k w) (hw : (g :: gs).map Glyph.char = w)
    (ha : ∀ h ∈ rest.head?, k.absorbs h.char = false) :
    cut g (gs ++ rest) = (.token ⟨k, Glyph.text (g :: gs), g.pos⟩, rest) := by
  rw [List.map_cons] at hw
  cases hl with
  | word first tail =>
    obtain ⟨rfl, rfl⟩ := List.cons.inj hw
    rw [cut_alpha first]
    refine cutRun_append (fun h hh => ?_) ha
    simpa [isWordBody] using tail _ (List.mem_map_of_mem hh)
  | numeric first tail =>
    obtain ⟨rfl, rfl⟩ := List.cons.inj hw
    rw [cut_digit first]
    refine cutRun_append (fun h hh => ?_) ha
    simpa [isNumericBody] using tail _ (List.mem_map_of_mem hh)
  | negative first tail =>
    obtain ⟨hg, hgs⟩ := List.cons.inj hw
    obtain ⟨d, ds, rfl, rfl, rfl⟩ := List.map_eq_cons_iff.1 hgs
    rw [cut_dash hg, if_pos (by simp [first])]
    refine cutRun_append (fun h hh => ?_) ha
    rcases List.mem_cons.1 hh with rfl | hh
    · simp [isNumericBody, first]
    · simpa [isNumericBody] using tail _ (List.mem_map_of_mem hh)
  | text inner =>
    obtain ⟨hg, hgs⟩ := List.cons.inj hw
    obtain ⟨us, vs, rfl, rfl, hvs⟩ := List.map_eq_append_iff.1 hgs
    obtain ⟨q, ws, rfl, hq, hnil⟩ := List.map_eq_cons_iff.1 hvs
    obtain rfl := List.map_eq_nil_iff.1 hnil
    rw [cut_doubleQuote hg, List.append_assoc, List.singleton_append]
    exact cutString_append (fun h hh => (inner _ (List.mem_map_of_mem hh)).1) hq
  | minus =>
    obtain ⟨hg, hgs⟩ := List.cons.inj hw
    obtain rfl := List.map_eq_nil_iff.1 hgs
    have hd : (rest.head?.map fun h => h.char.isDigit) ≠ some true := by
      cases rest with
      | nil => simp
      | cons r rest => simpa [TokenKind.absorbs] using ha r rfl
    rw [List.nil_append, cut_dash hg, if_neg hd]
  | _ =>
    obtain ⟨hg, hgs⟩ := List.cons.inj hw
    obtain rfl := List.map_eq_nil_iff.1 hgs
    exact cut_mark (by rw [hg]; rfl)

/-- A text is a lexeme of at most one kind. -/
theorem Lexeme.kind_unique {k k' : TokenKind} {w : List Char} (h : Lexeme k w) (h' : Lexeme k' w) :
    k = k' := by
  -- both kinds are what is cut from a row of glyphs that spells the text
  obtain ⟨c, cs, rfl⟩ := List.exists_cons_of_ne_nil h.ne_nil
  have hw : ((c :: cs).map fun c => (⟨c, ⟨1, 1⟩⟩ : Glyph)).map Glyph.char = c :: cs := by
    simp [Function.comp_def]
  have hnil : ∀ k : TokenKind, ∀ h ∈ ([] : List Glyph).head?, k.absorbs h.char = false := by simp
  have hc := cut_of_lexeme h hw (hnil k)
  rw [cut_of_lexeme h' hw (hnil k')] at hc
  simpa using hc.symm

/-- A token is a lexeme that is cut from `g :: rest` to its full length. -/
def CutsLexeme (g : Glyph) (rest : List Glyph) : Piece × List Glyph → Prop
  | (.token t, left) => ∃ gs, rest = gs ++ left ∧ t.text = Glyph.text (g :: gs) ∧
      Lexeme t.kind ((g :: gs).map Glyph.char) ∧ ∀ h ∈ left.head?, t.kind.absorbs h.char = false
  | _ => True

theorem cutsLexeme_run {kind : TokenKind} {body : Char → Bool} {g : Glyph} {rest : List Glyph}
    (habs : ∀ c, kind.absorbs c = body c)
    (hl : ∀ gs left, rest = gs ++ left → (∀ h ∈ gs, body h.char = true) →
      (∀ h ∈ left.head?, body h.char = false) → Lexeme kind ((g :: gs).map Glyph.char)) :
    CutsLexeme g rest (cutRun kind body g rest) := by
  have hsplit :=
    (List.takeWhile_append_dropWhile (p := fun h : Glyph => body h.char) (l := rest)).symm
  have hstop : ∀ h ∈ (rest.dropWhile fun h => body h.char).head?, body h.char = false := by
    intro h hh
    have hd := List.head?_dropWhile_not (fun h : Glyph => body h.char) rest
    rw [Option.mem_def.1 hh] at hd
    exact hd
  refine ⟨_, hsplit, rfl, hl _ _ hsplit (fun h hh => ?_) hstop, fun h hh => ?_⟩
  · exact List.mem_takeWhile_imp (p := fun h : Glyph => body h.char) hh
  · rw [habs]
    exact hstop h hh

theorem cutsLexeme_string {g : Glyph} {rest : List Glyph} (hg : g.char = '"')
    (hn : ∀ h ∈ rest, h.char ≠ '\n') : CutsLexeme g rest (cutString g rest) := by
  unfold cutString
  split
  · trivial
  · rename_i q left heq
    have hsplit :=
      (List.takeWhile_append_dropWhile (p := fun h : Glyph => h.char != '"') (l := rest)).symm
    rw [heq] at hsplit
    have hq : q.char = '"' := by
      have hd := List.head?_dropWhile_not (fun h : Glyph => h.char != '"') rest
      rw [heq] at hd
      simpa using hd
    refine ⟨rest.takeWhile (fun h => h.char != '"') ++ [q],
      by simpa using hsplit, rfl, ?_, fun _ _ => rfl⟩
    have hl :
        Lexeme .text ('"' :: (rest.takeWhile fun h => h.char != '"').map Glyph.char ++ ['"']) := by
      refine .text fun c hc => ?_
      obtain ⟨h, hh, rfl⟩ := List.mem_map.1 hc
      have hmem := List.takeWhile_subset _ hh
      exact ⟨by simpa using List.mem_takeWhile_imp hh, hn h hmem⟩
    simpa [hg, hq] using hl

/-- Whatever is cut as a token is a lexeme of its full length. -/
theorem cutsLexeme_cut {g : Glyph} {rest : List Glyph} (hn : ∀ h ∈ rest, h.char ≠ '\n') :
    CutsLexeme g rest (cut g rest) := by
  have hnum : ∀ gs : List Glyph, (∀ h ∈ gs, isNumericBody h.char = true) →
      ∀ c ∈ gs.map Glyph.char, c.isDigit = true ∨ c = '.' := by
    intro gs hgs c hc
    obtain ⟨h, hh, rfl⟩ := List.mem_map.1 hc
    simpa [isNumericBody] using hgs h hh
  unfold cut
  split
  · rename_i kind hk
    exact ⟨[], rfl, rfl, lexeme_of_markKind? hk, fun h _ => absorbs_of_markKind? hk h.char⟩
  split
  · rename_i hq
    exact cutsLexeme_string hq hn
  split
  · rename_i hd
    exact cutsLexeme_run (fun _ => rfl) fun gs _ _ hgs _ => .numeric hd (hnum gs hgs)
  split
  · rename_i hm
    split
    · rename_i hd
      refine cutsLexeme_run (fun _ => rfl) fun gs left heq hgs hleft => ?_
      -- the digit after the dash belongs to the run, since the run stops at no digit
      cases gs with
      | nil =>
        rw [heq, List.nil_append] at hd
        obtain ⟨r, hr, hrd⟩ := Option.map_eq_some_iff.1 hd
        exact absurd (hleft r hr) (by simp [isNumericBody, hrd])
      | cons r gs =>
        rw [heq] at hd
        have hr : r.char.isDigit = true := by simpa using hd
        rw [List.map_cons, hm]
        exact .negative hr (hnum gs fun h hh => hgs h (List.mem_cons_of_mem _ hh))
    · rename_i hd
      refine ⟨[], rfl, rfl, ?_, fun h hh => ?_⟩
      · rw [List.map_singleton, hm]
        exact .minus
      · simpa [TokenKind.absorbs, Option.mem_def.1 hh] using hd
  split
  · rename_i ha
    refine cutsLexeme_run (fun _ => rfl) fun gs _ _ hgs _ => .word ha fun c hc => ?_
    obtain ⟨h, hh, rfl⟩ := List.mem_map.1 hc
    simpa [isWordBody] using hgs h hh
  · trivial

/-- All that can be cut at a glyph that is no space: a lexeme of its full length, a character that
starts no token, or a string without an end. -/
inductive Cuts (g : Glyph) (rest : List Glyph) : Piece × List Glyph → Prop where
  | token {k : TokenKind} {gs left : List Glyph} :
      rest = gs ++ left → Lexeme k ((g :: gs).map Glyph.char) →
      (∀ h ∈ left.head?, k.absorbs h.char = false) →
        Cuts g rest (.token ⟨k, Glyph.text (g :: gs), g.pos⟩, left)
  | invalid : markKind? g.char = none → g.char ≠ '"' → g.char.isDigit = false → g.char ≠ '-' →
      g.char.isAlpha = false → Cuts g rest (.invalid ⟨.invalid, Glyph.text [g], g.pos⟩, rest)
  | unterminated : g.char = '"' → (∀ h ∈ rest, h.char ≠ '"') → Cuts g rest (.unterminated g.pos, [])

theorem cuts_of_cutsLexeme {g : Glyph} {rest left : List Glyph} {t : Token}
    (h : CutsLexeme g rest (.token t, left))
    (hpos : t.pos = g.pos) : Cuts g rest (.token t, left) := by
  obtain ⟨gs, hrest, htext, hl, ha⟩ := h
  have ht : t = ⟨t.kind, Glyph.text (g :: gs), g.pos⟩ := by rw [← htext, ← hpos]
  rw [ht]
  exact .token hrest hl ha

theorem cuts_cut {g : Glyph} {rest : List Glyph} (hn : ∀ h ∈ rest, h.char ≠ '\n') :
    Cuts g rest (cut g rest) := by
  have hlexeme := cutsLexeme_cut (g := g) hn
  revert hlexeme
  unfold cut
  split
  · exact fun h => cuts_of_cutsLexeme h rfl
  rename_i hmark
  split
  · rename_i hquote
    unfold cutString
    split
    · rename_i hnil
      intro _
      refine .unterminated hquote fun h hh => ?_
      simpa using List.dropWhile_eq_nil_iff.1 hnil h hh
    · exact fun h => cuts_of_cutsLexeme h rfl
  rename_i hquote
  split
  · exact fun h => cuts_of_cutsLexeme h rfl
  rename_i hdigit
  split
  · split <;> exact fun h => cuts_of_cutsLexeme h rfl
  rename_i hdash
  split
  · exact fun h => cuts_of_cutsLexeme h rfl
  rename_i halpha
  exact fun _ => .invalid hmark hquote (by simpa using hdigit) hdash (by simpa using halpha)

end ListLang
