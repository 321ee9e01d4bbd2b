import ListLang.Proofs.Reparsing
import Mathlib.Data.List.Infix

/-! Which parenthesis is blamed. Where the parentheses of a source are not balanced, reading reports
the first one that closes nothing; if there is none, it reports the last one that is never
closed. -/

namespace ListLang

open ListLang.Expr

/-! Counting. -/

/-- With `n` lists open before it, no beginning of the row closes more lists than are open. -/
def NeverBelow (n : Nat) (ts : List Token) : Prop := ∀ us, us <+: ts → closes us ≤ n + opens us

instance (n : Nat) (ts : List Token) : Decidable (NeverBelow n ts) :=
  decidable_of_iff (∀ us ∈ ts.inits, closes us ≤ n + opens us)
    (by simp only [List.mem_inits, NeverBelow])

section Counting

variable {t : Token} {ts : List Token} {n m : Nat}

theorem opens_append (us vs : List Token) : opens (us ++ vs) = opens us + opens vs :=
  List.countP_append

theorem closes_append (us vs : List Token) : closes (us ++ vs) = closes us + closes vs :=
  List.countP_append

theorem count_openList (h : t.kind = .openList) : opens [t] = 1 ∧ closes [t] = 0 := by
  simp [opens, closes, h]

theorem count_closeList (h : t.kind = .closeList) : opens [t] = 0 ∧ closes [t] = 1 := by
  simp [opens, closes, h]

theorem count_other (ho : t.kind ≠ .openList) (hc : t.kind ≠ .closeList) :
    opens [t] = 0 ∧ closes [t] = 0 := by
  simp [opens, closes, ho, hc]

theorem neverBelow_nil (n : Nat) : NeverBelow n [] := by
  intro us hus
  rw [List.prefix_nil.1 hus]
  exact Nat.zero_le _

/-- If `m` lists are open after a token, what holds of the row behind it holds of the row from it
on. -/
theorem neverBelow_cons (h : n + opens [t] = m + closes [t]) :
    NeverBelow n (t :: ts) ↔ NeverBelow m ts := by
  constructor
  · intro hrow us hus
    have hcount := hrow ([t] ++ us) (List.cons_prefix_cons.2 ⟨rfl, hus⟩)
    rw [opens_append, closes_append] at hcount
    omega
  · intro hrest us hus
    rcases List.prefix_cons_iff.1 hus with rfl | ⟨vs, rfl, hvs⟩
    · exact Nat.zero_le _
    · have hcount := hrest vs hvs
      rw [← List.singleton_append, opens_append, closes_append]
      omega

/-- With `n` lists open before the tokens `before`, the closing parenthesis `t` after them is the
first one with which more lists are closed than are open. -/
structure FirstStray (n : Nat) (before : List Token) (t : Token) : Prop where
  kind : t.kind = .closeList
  excess : n + opens (before ++ [t]) < closes (before ++ [t])
  first : NeverBelow n before

theorem firstStray_nil (h : t.kind = .closeList) : FirstStray 0 [] t := by
  have hcount := count_closeList h
  exact ⟨h, by rw [List.nil_append]; omega, neverBelow_nil 0⟩

theorem firstStray_cons {before : List Token} {u : Token} (h : n + opens [t] = m + closes [t])
    (hstray : FirstStray m before u) : FirstStray n (t :: before) u := by
  refine ⟨hstray.kind, ?_, (neverBelow_cons h).2 hstray.first⟩
  have hexcess := hstray.excess
  rw [List.cons_append, ← List.singleton_append, opens_append, closes_append]
  omega

theorem FirstStray.count {before : List Token} (h : FirstStray n before t) :
    closes before = n + opens before := by
  have hcount := count_closeList h.kind
  have hexcess := h.excess
  have hle := h.first before (List.prefix_refl before)
  rw [opens_append, closes_append] at hexcess
  omega

/-- Where a row closes too many lists, there is a first parenthesis with which it does. -/
theorem exists_firstStray (h : ¬NeverBelow n ts) :
    ∃ before t after, ts = before ++ t :: after ∧ FirstStray n before t := by
  -- along the row, with the number of lists that are open
  induction ts generalizing n with
  | nil => exact absurd (neverBelow_nil n) h
  | cons t ts ih =>
    by_cases hfirst : n = 0 ∧ t.kind = .closeList
    · obtain ⟨rfl, hclose⟩ := hfirst
      exact ⟨[], t, ts, rfl, firstStray_nil hclose⟩
    · obtain ⟨m, hm⟩ : ∃ m, n + opens [t] = m + closes [t] := by
        by_cases hclose : t.kind = .closeList
        · have hcount := count_closeList hclose
          have hn : n ≠ 0 := fun hn => hfirst ⟨hn, hclose⟩
          exact ⟨n - 1, by omega⟩
        · have hnone : closes [t] = 0 := by simp [closes, hclose]
          exact ⟨n + opens [t], by omega⟩
      obtain ⟨before, u, after, rfl, hstray⟩ := ih fun hrest => h ((neverBelow_cons hm).2 hrest)
      exact ⟨t :: before, u, after, rfl, firstStray_cons hm hstray⟩

end Counting

/-! Partners. -/

/-- Somewhere in the row that follows an opening parenthesis stands the one that closes it: what is
between them is balanced. -/
def HasPartner (after : List Token) : Prop :=
  ∃ inner t rest, after = inner ++ t :: rest ∧ Balanced inner ∧ t.kind = .closeList

/-- Every parenthesis that opens a list in the row has its partner there. -/
def AllPaired (ts : List Token) : Prop :=
  ∀ before t after, ts = before ++ t :: after → t.kind = .openList → HasPartner after

/-- The opening parenthesis `t` has no partner among the tokens `after` it, and all later ones
have. -/
structure InnermostUnclosed (t : Token) (after : List Token) : Prop where
  kind : t.kind = .openList
  unclosed : ¬HasPartner after
  innermost : AllPaired after

section Partners

variable {t : Token} {ts : List Token}

theorem balanced_iff : Balanced ts ↔ NeverBelow 0 ts ∧ closes ts = opens ts := by
  simp [Balanced, NeverBelow]

theorem hasPartner_of_excess (h : ¬NeverBelow 0 ts) : HasPartner ts := by
  obtain ⟨inner, t, rest, rfl, hstray⟩ := exists_firstStray h
  exact ⟨inner, t, rest, rfl, balanced_iff.2 ⟨hstray.first, by simpa using hstray.count⟩,
    hstray.kind⟩

theorem excess_of_hasPartner (h : HasPartner ts) : ¬NeverBelow 0 ts := by
  obtain ⟨inner, t, rest, rfl, hinner, hclose⟩ := h
  intro hnever
  have hcount := hnever (inner ++ [t]) (by simp)
  have ht := count_closeList hclose
  have hsame := hinner.2
  rw [opens_append, closes_append] at hcount
  omega

theorem AllPaired.drop (us : List Token) (h : AllPaired (us ++ ts)) : AllPaired ts := by
  rintro before t after rfl hopen
  exact h (us ++ before) t after (by simp) hopen

theorem allPaired_cons (h : t.kind = .openList → HasPartner ts) (hts : AllPaired ts) :
    AllPaired (t :: ts) := by
  intro before u after hrow hopen
  cases before with
  | nil =>
    obtain ⟨rfl, rfl⟩ := List.cons.inj hrow
    exact h hopen
  | cons v before => exact hts before u after (List.cons.inj hrow).2 hopen

/-- Partners are different parentheses. -/
theorem AllPaired.opens_le (h : AllPaired ts) : opens ts ≤ closes ts := by
  -- on the length, since what follows a partner is a shorter row
  induction hlength : ts.length using Nat.strong_induction_on generalizing ts with
  | _ length ih =>
    cases ts with
    | nil => exact Nat.zero_le _
    | cons t ts =>
      by_cases hopen : t.kind = .openList
      · obtain ⟨inner, u, rest, rfl, hinner, hclose⟩ := h [] t ts rfl hopen
        have hrest : AllPaired rest := AllPaired.drop (t :: inner ++ [u]) (by simpa using h)
        have hle := ih rest.length (by simp [← hlength]; omega) hrest rfl
        have hfirst := count_openList hopen
        have hlast := count_closeList hclose
        have hsame := hinner.2
        rw [← List.singleton_append, ← List.singleton_append (l := rest), opens_append,
          opens_append, opens_append, closes_append, closes_append, closes_append]
        omega
      · have hrest : AllPaired ts := AllPaired.drop [t] h
        have hle := ih ts.length (by simp [← hlength]) hrest rfl
        have hnone : opens [t] = 0 := by simp [opens, hopen]
        rw [← List.singleton_append, opens_append, closes_append]
        omega

/-- In a row where all are paired and as many are closed as opened, nothing is closed that was
opened before it. -/
theorem AllPaired.neverBelow (h : AllPaired ts) (hcount : closes ts = opens ts) :
    NeverBelow 0 ts := by
  rintro us ⟨vs, rfl⟩
  have hle := (h.drop us).opens_le
  rw [opens_append, closes_append] at hcount
  omega

end Partners

/-! What reading blames. -/

section Blame

variable {last : Token} {ts : List Token} {opened : List Frame} {done : List Expr} {e : ReadError}

/-- What is blamed in a row, when the lists `opened` are open before it. -/
inductive Blames (opened : List Frame) (ts : List Token) : ReadError → Prop where
  | stray (before : List Token) (t : Token) (after : List Token) :
      ts = before ++ t :: after → FirstStray opened.length before t →
      Blames opened ts (.strayClose t.pos)
  | unclosed (before : List Token) (t : Token) (after : List Token) :
      NeverBelow opened.length ts → ts = before ++ t :: after →
      InnermostUnclosed t after → Blames opened ts (.unclosedList t.pos)
  /-- The row has no unclosed parenthesis of its own, and leaves one open that stands before it. -/
  | outer (k : Nat) (f : Frame) :
      NeverBelow opened.length ts → AllPaired ts → closes ts = opens ts + k →
      opened[k]? = some f → Blames opened ts (.unclosedList f.opening)

/-- What is blamed in a row is blamed with one more token in front, if that is so of the lists open
before it. -/
theorem Blames.cons {t : Token} {opened' : List Frame}
    (hlength : opened.length + opens [t] = opened'.length + closes [t])
    (houter : ∀ {k f}, NeverBelow opened.length (t :: ts) → AllPaired ts → closes ts =
      opens ts + k →
      opened'[k]? = some f → Blames opened (t :: ts) (.unclosedList f.opening))
    (h : Blames opened' ts e) : Blames opened (t :: ts) e := by
  cases h with
  | stray before u after hrow hstray =>
    exact .stray (t :: before) u after (by rw [hrow]; rfl) (firstStray_cons hlength hstray)
  | unclosed before u after hnever hrow hlast =>
    exact .unclosed (t :: before) u after ((neverBelow_cons hlength).2 hnever)
      (by rw [hrow]; rfl) hlast
  | outer k f hnever hpaired hk hf =>
    exact houter ((neverBelow_cons hlength).2 hnever) hpaired hk hf

theorem blames_openList {t : Token} (ho : t.kind = .openList)
    (h : Blames (⟨t.pos, done⟩ :: opened) ts e) :
    Blames opened (t :: ts) e := by
  have hcount := count_openList ho
  refine h.cons (by rw [List.length_cons]; omega) ?_
  intro k f hnever hpaired hk hf
  cases k with
  | zero =>
    -- the row closes as much as it opens, so the parenthesis in front of it stays open
    cases hf
    have hunclosed : ¬HasPartner ts :=
      fun hpartner => excess_of_hasPartner hpartner (hpaired.neverBelow hk)
    exact .unclosed [] t ts hnever rfl ⟨ho, hunclosed, hpaired⟩
  | succ k =>
    have hpartner : HasPartner ts := hasPartner_of_excess fun hfine => by
      have hle := hfine ts (List.prefix_refl ts)
      omega
    refine .outer k f hnever (allPaired_cons (fun _ => hpartner) hpaired) ?_ (by simpa using hf)
    rw [← List.singleton_append, opens_append, closes_append]
    omega

theorem blames_closeList {t : Token} {f : Frame} (hc : t.kind = .closeList)
    (h : Blames opened ts e) :
    Blames (f :: opened) (t :: ts) e := by
  have hcount := count_closeList hc
  refine h.cons (by rw [List.length_cons]; omega) ?_
  intro k g hnever hpaired hk hg
  refine .outer (k + 1) g hnever (allPaired_cons (fun ho => by simp [hc] at ho) hpaired) ?_
    (by simpa using hg)
  rw [← List.singleton_append, opens_append, closes_append]
  omega

theorem blames_atom {t : Token} (ho : t.kind ≠ .openList) (hc : t.kind ≠ .closeList)
    (h : Blames opened ts e) :
    Blames opened (t :: ts) e := by
  have hcount := count_other ho hc
  refine h.cons (by omega) ?_
  intro k f hnever hpaired hk hf
  refine .outer k f hnever (allPaired_cons (fun hopen => absurd hopen ho) hpaired) ?_ hf
  rw [← List.singleton_append, opens_append, closes_append]
  omega

theorem finish_blames (hlast : last.kind = .endOfText) (hfinish : finish opened done = .error e) :
    Blames opened [last] e := by
  have hcount : opens [last] = 0 ∧ closes [last] = 0 :=
    count_other (by simp [hlast]) (by simp [hlast])
  cases opened with
  | nil => cases hfinish
  | cons f opened =>
    cases hfinish
    have hnever : NeverBelow (f :: opened).length [last] :=
      (neverBelow_cons (m := (f :: opened).length) (by omega)).2 (neverBelow_nil _)
    have hpaired : AllPaired [last] :=
      allPaired_cons (fun ho => by simp [hlast] at ho) fun before t after hrow => by simp at hrow
    exact .outer 0 f hnever hpaired (by omega) rfl

/-- Reading blames the right parenthesis, whatever lists are open. -/
theorem build_blames (h : Closed ts last) (hbuild : build opened done (ts ++ [last]) = .error e) :
    Blames opened (ts ++ [last]) e := by
  induction ts generalizing opened done with
  | nil =>
    rw [List.nil_append, build_endOfText _ _ _ h.last] at hbuild
    exact finish_blames h.last hbuild
  | cons t ts ih =>
    rw [List.cons_append] at hbuild ⊢
    rcases (h.lexeme t List.mem_cons_self).kind_cases with ⟨ho, -⟩ | ⟨hc, -⟩ | ⟨ha, ho, hc⟩
    · rw [build_openList _ _ _ ho] at hbuild
      exact blames_openList ho (ih h.tail hbuild)
    · cases opened with
      | nil =>
        have hstray : build [] done (t :: (ts ++ [last])) = .error (.strayClose t.pos) := by
          simp [build, hc]
        rw [hstray] at hbuild
        cases hbuild
        exact .stray [] t _ rfl (firstStray_nil hc)
      | cons f opened =>
        rw [build_closeList _ _ _ _ hc] at hbuild
        exact blames_closeList hc (ih h.tail hbuild)
    · rw [build_atom _ _ _ ha] at hbuild
      exact blames_atom ho hc (ih h.tail hbuild)

end Blame

/-! Whole sources. -/

/-- A source is refused: there is an error in place of expressions, and a parser that was given the
source holds none. -/
structure Refuses (source : List UInt8) (e : ReadError) : Prop where
  read : readBytes source = .error e
  parse : (Parser.ofText (Text.decode source)).parse.1 = .error e
  expressions : (Parser.ofText (Text.decode source)).parse.2.expressions = []

section Sources

variable {source : List UInt8} {us : List Token} {e : ReadError}

theorem refuses_of_read (htokens : tokenize (Text.decode source) = .ok us)
    (h : readBytes source = .error e) :
    Refuses source e := by
  have hforest : forest us = .error e := by rwa [readBytes, read_of_tokenize htokens] at h
  obtain ⟨n, hparse⟩ := Parser.parse_of_forest_error htokens hforest
  exact ⟨h, by rw [hparse], by rw [hparse]⟩

theorem read_blames (htokens : tokenize (Text.decode source) = .ok us)
    (h : readBytes source = .error e) :
    Blames [] us e := by
  obtain ⟨ts, rfl, hclosed⟩ := closed_of_tokenize htokens
  rw [readBytes, read_of_tokenize htokens] at h
  exact build_blames hclosed h

theorem balanced_of_read {es : List Expr} (htokens : tokenize (Text.decode source) = .ok us)
    (h : readBytes source = .ok es) : Balanced us := by
  obtain ⟨ts, rfl, hclosed⟩ := closed_of_tokenize htokens
  have hends := read_endsRight htokens hclosed
  rw [show read (Text.decode source) = .ok es from h] at hends
  exact closes_zero.1 hends.1

end Sources

/-- Of a source that is made of tokens, if more parentheses are closed than opened in some beginning
of it, the first one that closes too many is reported, whatever follows. If not, and if more are
opened than closed, the last one that has no partner is reported. Either way there are no
expressions. -/
theorem blamed_parenthesis (source : List UInt8) (us : List Token)
    (htokens : tokenize (Text.decode source) = .ok us) :
    ((∃ vs, vs <+: us ∧ opens vs < closes vs) →
      ∃ before t after, us = before ++ t :: after ∧ FirstStray 0 before t ∧
        Refuses source (.strayClose t.pos)) ∧
    ((∀ vs, vs <+: us → closes vs ≤ opens vs) → closes us < opens us →
      ∃ before t after, us = before ++ t :: after ∧ InnermostUnclosed t after ∧
        Refuses source (.unclosedList t.pos)) := by
  cases hread : readBytes source with
  | ok es =>
    have hbalanced := balanced_of_read htokens hread
    refine ⟨?_, fun _ hmore => absurd hbalanced.2 (by omega)⟩
    rintro ⟨vs, hvs, hexcess⟩
    exact absurd (hbalanced.1 vs hvs) (by omega)
  | error e =>
    have hrefuses := refuses_of_read htokens hread
    cases read_blames htokens hread with
    | stray before t after hrow hstray =>
      refine ⟨fun _ => ⟨before, t, after, hrow, hstray, hrefuses⟩, fun hfine _ => ?_⟩
      have hcount := hfine (before ++ [t]) (by simp [hrow])
      have hexcess := hstray.excess
      omega
    | unclosed before t after hnever hrow hlast =>
      refine ⟨?_, fun _ _ => ⟨before, t, after, hrow, hlast, hrefuses⟩⟩
      rintro ⟨vs, hvs, hexcess⟩
      have hcount := hnever vs hvs
      rw [List.length_nil] at hcount
      omega
    | outer k f _ _ _ hf => simp at hf

/-- The place of the parenthesis that is blamed for a source, if one is. -/
def blamedAt? (source : List UInt8) : Option Position :=
  match readBytes source with
  | .error (.strayClose p) => some p
  | .error (.unclosedList p) => some p
  | _ => none

/-- Three lists that are never closed, the last one in the second line, with closed ones and a
string before the end. -/
def threeUnclosed : List UInt8 := Text.bytes "(a (b) (c\n (d \")\" (e (f)) '"

theorem blamed_parenthesis_unbalanced :
    (∃ us, tokenize (Text.decode unbalancedSource) = .ok us ∧
      (∃ vs, vs <+: us ∧ opens vs < closes vs) ∧
      ∃ before t after, us = before ++ t :: after ∧ FirstStray 0 before t ∧
        Refuses unbalancedSource (.strayClose t.pos) ∧ t.pos = ⟨1, 4⟩) ∧
    ∃ us, tokenize (Text.decode threeUnclosed) = .ok us ∧ (∀ vs, vs <+: us → closes vs ≤ opens vs) ∧
      closes us < opens us ∧ ∃ before t after, us = before ++ t :: after ∧
        InnermostUnclosed t after ∧
        Refuses threeUnclosed (.unclosedList t.pos) ∧ t.pos = ⟨2, 2⟩ := by
  have hexcess : ((tokenize (Text.decode unbalancedSource)).toOption.any fun us =>
      opens (us.take 4) < closes (us.take 4)) = true := by
    decide +kernel
  have hunclosed : ((tokenize (Text.decode threeUnclosed)).toOption.any fun us =>
      NeverBelow 0 us ∧ closes us < opens us) = true := by
    decide +kernel
  have hfirst : blamedAt? unbalancedSource = some ⟨1, 4⟩ := by decide +kernel
  have hlast : blamedAt? threeUnclosed = some ⟨2, 2⟩ := by decide +kernel
  constructor
  · cases htokens : tokenize (Text.decode unbalancedSource) with
    | error e => simp [htokens, Except.toOption] at hexcess
    | ok us =>
      have hbeginning : ∃ vs, vs <+: us ∧ opens vs < closes vs :=
        ⟨us.take 4, List.take_prefix 4 us, by simpa [htokens, Except.toOption] using hexcess⟩
      obtain ⟨before, t, after, hrow, hstray, hrefuses⟩ :=
        (blamed_parenthesis _ us htokens).1 hbeginning
      rw [blamedAt?, hrefuses.read] at hfirst
      exact ⟨us, rfl, hbeginning, before, t, after, hrow, hstray, hrefuses, Option.some.inj hfirst⟩
  · cases htokens : tokenize (Text.decode threeUnclosed) with
    | error e => simp [htokens, Except.toOption] at hunclosed
    | ok us =>
      obtain ⟨hnever, hmore⟩ : NeverBelow 0 us ∧ closes us < opens us := by
        simpa [htokens, Except.toOption] using hunclosed
      have hfine : ∀ vs, vs <+: us → closes vs ≤ opens vs :=
        fun vs hvs => by simpa using hnever vs hvs
      obtain ⟨before, t, after, hrow, hopen, hrefuses⟩ :=
        (blamed_parenthesis _ us htokens).2 hfine hmore
      rw [blamedAt?, hrefuses.read] at hlast
      exact ⟨us, rfl, hfine, hmore, before, t, after, hrow, hopen, hrefuses, Option.some.inj hlast⟩

end ListLang
