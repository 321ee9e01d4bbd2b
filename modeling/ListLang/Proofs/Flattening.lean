import ListLang.Proofs.ArenaReading
import ListLang.Proofs.RoundTrip

/-! A row of tokens can be read exactly when its parentheses are balanced. The forest that is read
is the only one whose tokens, in order, are the row. -/

namespace ListLang

/-! The tokens of a forest. -/

/-- A closing parenthesis. Expressions do not keep where it stands. -/
def closing : Token := ⟨.closeList, ")", ⟨0, 0⟩⟩

/-- A token as far as expressions keep it: all of it, but for the place of a closing parenthesis. -/
def Token.kept (t : Token) : Token :=
  if t.kind = .closeList then { t with pos := closing.pos } else t

namespace Expr

mutual

/-- An atom is one token. A list is the token that opens it, those of its items, and one that closes
it. -/
def flatten : Expr → List Token
  | atom t => [t]
  | list p es => (list p es).token :: flattenAll es ++ [closing]

def flattenAll : List Expr → List Token
  | [] => []
  | e :: es => flatten e ++ flattenAll es

end

mutual

/-- An expression and all within it, each list before its items. -/
def nodes : Expr → List Expr
  | atom t => [atom t]
  | list p es => list p es :: nodesAll es

def nodesAll : List Expr → List Expr
  | [] => []
  | e :: es => nodes e ++ nodesAll es

end

/-- What an expression says of itself. -/
def label (e : Expr) : ExprKind × String × Position := (e.kind, e.text, e.pos)

theorem flattenAll_append (es fs : List Expr) :
    flattenAll (es ++ fs) = flattenAll es ++ flattenAll fs := by
  induction es with
  | nil => rfl
  | cons e es ih => rw [List.cons_append, flattenAll, flattenAll, ih, List.append_assoc]

end Expr

/-- What the expression that starts at a token says of itself. -/
def Token.label (t : Token) : ExprKind × String × Position :=
  if t.kind = .openList then (.expression, "", t.pos) else (t.kind.atomKind, t.text, t.pos)

open ListLang.Expr

/-! Balance. -/

def opens (ts : List Token) : Nat := ts.countP fun t => t.kind = .openList

def closes (ts : List Token) : Nat := ts.countP fun t => t.kind = .closeList

/-- With `n` lists open before it, the row closes all lists, and never one that is not open. -/
def Closes (n : Nat) (ts : List Token) : Prop :=
  (∀ us, us <+: ts → closes us ≤ n + opens us) ∧ closes ts = n + opens ts

/-- No beginning of the row has more closing parentheses than opening ones, and as a whole it has as
many. -/
def Balanced (ts : List Token) : Prop :=
  (∀ us, us <+: ts → closes us ≤ opens us) ∧ closes ts = opens ts

section Balance

variable {t : Token} {ts : List Token} {n : Nat}

theorem closes_zero : Closes 0 ts ↔ Balanced ts := by simp [Closes, Balanced]

theorem closes_nil : Closes n [] ↔ n = 0 := by
  simp [Closes, opens, closes, eq_comm]

theorem closes_cons : Closes n (t :: ts) ↔
    (∀ us, us <+: ts → closes (t :: us) ≤ n + opens (t :: us)) ∧ closes (t :: ts) =
      n + opens (t :: ts) := by
  refine and_congr_left fun _ => ⟨fun h us hus => h _ (List.cons_prefix_cons.2 ⟨rfl, hus⟩),
    fun h us hus => ?_⟩
  rcases List.prefix_cons_iff.1 hus with rfl | ⟨vs, rfl, hvs⟩
  · exact Nat.zero_le _
  · exact h vs hvs

theorem closes_openList (h : t.kind = .openList) : Closes n (t :: ts) ↔ Closes (n + 1) ts := by
  have hopens : ∀ us, opens (t :: us) = opens us + 1 := fun us => by simp [opens, h]
  have hcloses : ∀ us, closes (t :: us) = closes us := fun us => by simp [closes, h]
  have hsum : ∀ us, n + (opens us + 1) = n + 1 + opens us := fun us => by omega
  rw [closes_cons]
  simp only [hopens, hcloses, hsum, Closes]

theorem closes_closeList (h : t.kind = .closeList) : Closes (n + 1) (t :: ts) ↔ Closes n ts := by
  have hopens : ∀ us, opens (t :: us) = opens us := fun us => by simp [opens, h]
  have hcloses : ∀ us, closes (t :: us) = closes us + 1 := fun us => by simp [closes, h]
  have hsum : ∀ us, n + 1 + opens us = n + opens us + 1 := fun us => by omega
  rw [closes_cons]
  simp only [hopens, hcloses, hsum, Nat.add_le_add_iff_right, Nat.add_right_cancel_iff, Closes]

/-- A closing parenthesis with no list open. -/
theorem not_closes_stray (h : t.kind = .closeList) : ¬Closes 0 (t :: ts) := by
  intro hcloses
  have := hcloses.1 [t] (by simp)
  simp [opens, closes, h] at this

theorem closes_atom (ho : t.kind ≠ .openList) (hc : t.kind ≠ .closeList) :
    Closes n (t :: ts) ↔ Closes n ts := by
  have hopens : ∀ us, opens (t :: us) = opens us := fun us => by simp [opens, ho]
  have hcloses : ∀ us, closes (t :: us) = closes us := fun us => by simp [closes, hc]
  rw [closes_cons]
  simp only [hopens, hcloses, Closes]

end Balance

/-! What reading does with a row of lexemes. -/

/-- The kinds of reading errors. -/
inductive ReadErrorKind where
  | unreadable
  | unterminatedText
  | invalidContent
  | unclosedList
  | strayClose
  | unexpectedToken
  deriving DecidableEq

def ReadError.kind : ReadError → ReadErrorKind
  | .unreadable _ => .unreadable
  | .unterminatedText _ => .unterminatedText
  | .invalidContent _ => .invalidContent
  | .unclosedList _ => .unclosedList
  | .strayClose _ => .strayClose
  | .unexpectedToken _ => .unexpectedToken

/-- A row of lexemes, closed by the token of an end. -/
structure Closed (ts : List Token) (last : Token) : Prop where
  lexeme : ∀ t ∈ ts, Lexeme t.kind t.text.toList
  last : last.kind = .endOfText

theorem Closed.tail {t last : Token} {ts : List Token} (h : Closed (t :: ts) last) :
    Closed ts last :=
  ⟨fun u hu => h.lexeme u (List.mem_cons_of_mem _ hu), h.last⟩

/-- A lexeme opens a list, closes one, or is an atom. -/
theorem Lexeme.kind_cases {k : TokenKind} {w : List Char} (h : Lexeme k w) :
    (k = .openList ∧ w = ['(']) ∨ (k = .closeList ∧ w = [')']) ∨
      (k.isAtom = true ∧ k ≠ .openList ∧ k ≠ .closeList) := by
  cases h <;> simp [TokenKind.isAtom]

/-- The tokens of what is read so far: of the expressions before each open list, and of those in the
last. -/
def pending : List Frame → List Expr → List Token
  | [], done => flattenAll done.reverse
  | f :: opened, done =>
    pending opened f.before ++ ⟨.openList, "(", f.opening⟩ :: flattenAll done.reverse

/-- How reading on may end. It succeeds if the rest closes all open lists, and the tokens of the
forest are then those of what was read before and of the rest. It fails for a parenthesis if not. -/
def EndsRight (opened : List Frame) (done : List Expr) (ts : List Token) (last : Token) :
    Except ReadError (List Expr) → Prop
  | .ok es =>
    Closes opened.length (ts ++ [last]) ∧ flattenAll es = pending opened done ++ ts.map Token.kept
  | .error e =>
    ¬Closes opened.length (ts ++ [last]) ∧ (e.kind = .unclosedList ∨ e.kind = .strayClose)

section Build

variable {t last : Token} {ts : List Token} {opened : List Frame} {done : List Expr}

theorem kept_kind (t : Token) : t.kept.kind = t.kind := by
  unfold Token.kept
  split <;> rfl

theorem kept_of_ne (h : t.kind ≠ .closeList) : t.kept = t := if_neg h

theorem kept_closeList (h : t.kind = .closeList) (htext : t.text = ")") : t.kept = closing := by
  simp [Token.kept, closing, h, htext]

theorem pending_cons (opened : List Frame) (e : Expr) (done : List Expr) :
    pending opened (e :: done) = pending opened done ++ flatten e := by
  have hlast : flattenAll (e :: done).reverse = flattenAll done.reverse ++ flatten e := by
    rw [List.reverse_cons, flattenAll_append, flattenAll, flattenAll, List.append_nil]
  cases opened with
  | nil => rw [pending, pending, hlast]
  | cons f opened => rw [pending, pending, hlast, List.append_assoc, List.cons_append]

theorem EndsRight.mono {opened' : List Frame} {done' : List Expr} {us : List Token}
    {r : Except ReadError (List Expr)} (h : EndsRight opened' done' us last r)
    (hcloses : Closes opened.length (ts ++ [last]) ↔ Closes opened'.length (us ++ [last]))
    (hpending : pending opened' done' ++ us.map Token.kept =
      pending opened done ++ ts.map Token.kept) :
    EndsRight opened done ts last r := by
  cases r with
  | ok es => exact ⟨hcloses.2 h.1, h.2.trans hpending⟩
  | error e => exact ⟨fun hc => h.1 (hcloses.1 hc), h.2⟩

theorem finish_endsRight (hlast : last.kind = .endOfText) (opened : List Frame) (done : List Expr) :
    EndsRight opened done [] last (finish opened done) := by
  have hcloses : Closes opened.length ([] ++ [last]) ↔ opened.length = 0 := by
    rw [List.nil_append, closes_atom (by simp [hlast]) (by simp [hlast]), closes_nil]
  cases opened with
  | nil => exact ⟨hcloses.2 rfl, by simp [pending]⟩
  | cons f opened => exact ⟨fun h => absurd (hcloses.1 h) (by simp), Or.inl rfl⟩

/-- A row of lexemes is read to its end or to the first parenthesis that is wrong. -/
theorem build_endsRight (h : Closed ts last) (opened : List Frame) (done : List Expr) :
    EndsRight opened done ts last (build opened done (ts ++ [last])) := by
  induction ts generalizing opened done with
  | nil =>
    rw [List.nil_append, build_endOfText _ _ _ h.last]
    exact finish_endsRight h.last opened done
  | cons t ts ih =>
    have ih := ih h.tail
    have hlexeme := h.lexeme t List.mem_cons_self
    rw [List.cons_append]
    rcases hlexeme.kind_cases with ⟨ho, htext⟩ | ⟨hc, htext⟩ | ⟨ha, ho, hc⟩
    · have ht : t = ⟨.openList, "(", t.pos⟩ := by
        rw [← ho, ← String.toList_inj.1 (htext.trans rfl : t.text.toList = "(".toList)]
      rw [build_openList _ _ _ ho]
      refine (ih (⟨t.pos, done⟩ :: opened) []).mono (closes_openList ho) ?_
      rw [List.map_cons, kept_of_ne (by simp [ho]), pending, List.reverse_nil, flattenAll,
        List.append_assoc, ← ht]
      rfl
    · have htext : t.text = ")" := String.toList_inj.1 htext
      cases opened with
      | nil =>
        have hbuild : build [] done (t :: (ts ++ [last])) = .error (.strayClose t.pos) := by
          simp [build, hc]
        rw [hbuild]
        exact ⟨not_closes_stray hc, Or.inr rfl⟩
      | cons f opened =>
        rw [build_closeList _ _ _ _ hc]
        refine (ih opened (.list f.opening done.reverse :: f.before)).mono (closes_closeList hc) ?_
        rw [pending_cons, pending, List.map_cons, kept_closeList hc htext, flatten]
        simp [Expr.token]
    · rw [build_atom _ _ _ ha]
      refine (ih opened (.atom t :: done)).mono (closes_atom ho hc) ?_
      rw [pending_cons, flatten, List.map_cons, kept_of_ne hc, List.append_assoc]
      rfl

end Build

/-! The forest is the only one with these tokens. -/

mutual

/-- Reading the tokens of an expression adds that expression. -/
theorem build_flatten :
    ∀ (e : Expr) (ts : List Token), e.WellSpelled → ts.map Token.kept = e.flatten →
    ∀ opened done us, build opened done (ts ++ us) = build opened (e :: done) us
  | atom t, ts, hw, hts => by
    intro opened done us
    obtain ⟨u, vs, rfl, hu, hvs⟩ := List.map_eq_cons_iff.1 hts
    obtain rfl := List.map_eq_nil_iff.1 hvs
    have hkind : u.kind = t.kind := by rw [← hu, kept_kind]
    have hut : u = t := (kept_of_ne (by rw [hkind]; exact hw.2.2)).symm.trans hu
    subst hut
    exact build_atom opened done us (hw.1.isAtom hw.2.1 hw.2.2)
  | list p es, ts, hw, hts => by
    intro opened done us
    rw [flatten, List.cons_append] at hts
    obtain ⟨o, vs, rfl, ho, hvs⟩ := List.map_eq_cons_iff.1 hts
    obtain ⟨vs, cs, rfl, hall, hcs⟩ := List.map_eq_append_iff.1 hvs
    obtain ⟨c, ws, rfl, hc, hws⟩ := List.map_eq_cons_iff.1 hcs
    obtain rfl := List.map_eq_nil_iff.1 hws
    have hopen : o.kind = .openList := by rw [← kept_kind, ho, Expr.token]
    have hpos : o.pos = p := by rw [← kept_of_ne (t := o) (by simp [hopen]), ho, Expr.token]
    have hclose : c.kind = .closeList := by rw [← kept_kind, hc, closing]
    rw [List.cons_append, build_openList _ _ _ hopen, List.append_assoc,
      build_flattenAll es vs hw hall, List.singleton_append, build_closeList _ _ _ _ hclose, hpos]
    simp

theorem build_flattenAll : ∀ (es : List Expr) (ts : List Token), AllWellSpelled es →
    ts.map Token.kept = flattenAll es →
      ∀ opened done us, build opened done (ts ++ us) = build opened (es.reverse ++ done) us
  | [], ts, _, hts => by
    intro opened done us
    obtain rfl := List.map_eq_nil_iff.1 hts
    rfl
  | e :: es, ts, hw, hts => by
    intro opened done us
    rw [flattenAll] at hts
    obtain ⟨ts, vs, rfl, hts, hvs⟩ := List.map_eq_append_iff.1 hts
    rw [List.append_assoc, build_flatten e ts hw.1 hts, build_flattenAll es vs hw.2 hvs]
    simp

end

/-! Every node says what its token says. -/

mutual

theorem nodes_label : ∀ e : Expr, e.WellSpelled →
    e.nodes.map label = (e.flatten.filter fun t => t.kind ≠ .closeList).map Token.label
  | atom t, hw => by
    simp [nodes, flatten, label, Token.label, Expr.kind, Expr.text, Expr.pos, hw.2.1, hw.2.2]
  | list p es, hw => by
    have h := nodesAll_label es hw
    simp [nodes, flatten, h, label, Token.label, Expr.kind, Expr.text, Expr.pos,
      Expr.token, closing]

theorem nodesAll_label : ∀ es : List Expr, AllWellSpelled es →
    (nodesAll es).map label = ((flattenAll es).filter fun t => t.kind ≠ .closeList).map Token.label
  | [], _ => rfl
  | e :: es, hw => by
    rw [nodesAll, flattenAll, List.map_append, List.filter_append, List.map_append,
      nodes_label e hw.1, nodesAll_label es hw.2]

end

theorem filter_kept (ts : List Token) :
    ((ts.map Token.kept).filter fun t => t.kind ≠ .closeList) = ts.filter fun t => t.kind ≠
      .closeList := by
  induction ts with
  | nil => rfl
  | cons t ts ih =>
    by_cases h : t.kind = .closeList
    · simpa [kept_kind, h] using ih
    · simpa [kept_kind, kept_of_ne h, h] using ih

/-! Whole sources. -/

theorem tokenize_error_kind {text : List Char} {e : ReadError} (h : tokenize text = .error e) :
    e.kind = .unterminatedText ∨ e.kind = .invalidContent := by
  unfold tokenize at h
  split at h
  · rename_i e' htokens
    obtain rfl : e' = e := Except.error.inj h
    unfold tokensOf at htokens
    split at htokens
    · rw [← Except.error.inj htokens]
      exact Or.inl rfl
    · simp only at htokens
      split at htokens
      · cases htokens
      · rw [← Except.error.inj htokens]
        exact Or.inr rfl
  · cases h

/-- The tokens of a text are lexemes, closed by the token of its end. -/
theorem closed_of_tokenize {text : List Char} {us : List Token} (h : tokenize text = .ok us) :
    ∃ ts, us = ts ++ [endToken text] ∧ Closed ts (endToken text) := by
  obtain ⟨ts, rfl, hs⟩ := spells_of_tokenize h
  exact ⟨ts, rfl, fun t ht => hs.lexeme_of_mem _ (List.mem_map_of_mem ht), rfl⟩

theorem read_of_tokenize {text : List Char} {us : List Token} (h : tokenize text = .ok us) :
    read text = forest us := by
  rw [read, h]

theorem read_endsRight {text : List Char} {ts : List Token}
    (h : tokenize text = .ok (ts ++ [endToken text]))
    (hclosed : Closed ts (endToken text)) : EndsRight [] [] ts (endToken text) (read text) := by
  rw [read_of_tokenize h]
  exact build_endsRight hclosed [] []

theorem read_error_kind {text : List Char} {e : ReadError} (h : read text = .error e) :
    e.kind ∈ [ReadErrorKind.invalidContent, .unterminatedText, .unclosedList, .strayClose] := by
  cases ht : tokenize text with
  | error e' =>
    obtain rfl : e' = e := by
      rw [read, ht] at h
      exact Except.error.inj h
    rcases tokenize_error_kind ht with hk | hk <;> simp [hk]
  | ok us =>
    obtain ⟨ts, rfl, hclosed⟩ := closed_of_tokenize ht
    have hends := read_endsRight ht hclosed
    rw [h] at hends
    rcases hends.2 with hk | hk <;> simp [hk]

/-- Reading inverts flattening. -/
theorem read_eq_ok_iff {text : List Char} {ts : List Token}
    (h : tokenize text = .ok (ts ++ [endToken text]))
    (hclosed : Closed ts (endToken text)) (es : List Expr) :
    read text = .ok es ↔ AllWellSpelled es ∧ flattenAll es = ts.map Token.kept := by
  constructor
  · intro hes
    have hends := read_endsRight h hclosed
    rw [hes] at hends
    exact ⟨read_wellSpelled hes, hends.2⟩
  · rintro ⟨hw, hflat⟩
    rw [read_of_tokenize h, forest, build_flattenAll es ts hw hflat.symm,
      build_endOfText _ _ _ hclosed.last]
    simp [finish]

theorem plant_ne_push {us : List Token} {r : Except ReadError (List Expr)}
    (h : Arena.SameEnd (Arena.plant us) r)
    (e : ArenaError) : Arena.plant us ≠ .error (.push e) := by
  intro hpush
  rw [hpush] at h
  cases r <;> exact h

/-- A source that is made of tokens is read exactly when their parentheses are balanced. The forest
is then the only one whose tokens, in order, are those of the source, and each of its nodes has the
kind, text and place that its token gives it. Reading it into an arena comes to the same end and
never fails to push a node. No source is refused for anything but its characters or its
parentheses. -/
theorem reading_inverts_flattening (source : List UInt8) :
    (∀ us, tokenize (Text.decode source) = .ok us →
      ((∃ es, readBytes source = .ok es) ↔ Balanced us) ∧
      (∀ es, readBytes source = .ok es ↔ AllWellSpelled es ∧ flattenAll es =
        us.dropLast.map Token.kept) ∧
      (∀ es, readBytes source = .ok es →
        (nodesAll es).map label = (us.dropLast.filter fun t => t.kind ≠
          .closeList).map Token.label) ∧
      Arena.SameEnd (Arena.plant us) (readBytes source) ∧ ∀ e, Arena.plant us ≠ .error (.push e)) ∧
    ∀ e, readBytes source = .error e →
      e.kind ∈ [ReadErrorKind.invalidContent, .unterminatedText, .unclosedList, .strayClose] := by
  refine ⟨fun us hus => ?_, fun e => read_error_kind⟩
  obtain ⟨ts, rfl, hclosed⟩ := closed_of_tokenize hus
  have hread := read_eq_ok_iff hus hclosed
  have hends := read_endsRight hus hclosed
  have hplant : Arena.SameEnd (Arena.plant (ts ++ [endToken (Text.decode source)]))
      (readBytes source) := by
    rw [readBytes, read_of_tokenize hus]
    refine Arena.plant_forest fun t ht hopen => ?_
    rcases List.mem_append.1 ht with ht | ht
    · have hlexeme := hclosed.lexeme t ht
      rw [hopen] at hlexeme
      generalize hw : t.text.toList = w at hlexeme
      cases hlexeme
      exact String.toList_inj.1 hw
    · rw [List.mem_singleton.1 ht] at hopen
      cases hopen
  rw [List.dropLast_concat]
  refine ⟨⟨?_, fun hbalanced => ?_⟩, hread, fun es hes => ?_, hplant, plant_ne_push hplant⟩
  · rintro ⟨es, hes⟩
    rw [show read (Text.decode source) = .ok es from hes] at hends
    exact closes_zero.1 hends.1
  · cases hr : readBytes source with
    | ok es => exact ⟨es, rfl⟩
    | error e =>
      rw [show read (Text.decode source) = .error e from hr] at hends
      exact absurd (closes_zero.2 hbalanced) hends.1
  · obtain ⟨hw, hflat⟩ := (hread es).1 hes
    rw [nodesAll_label es hw, hflat, filter_kept]

theorem exists_of_isOk {ε α : Type} {r : Except ε α} (h : r.isOk = true) : ∃ a, r = .ok a := by
  cases r with
  | ok a => exact ⟨a, rfl⟩
  | error e => cases h

theorem exists_of_not_isOk {ε α : Type} {r : Except ε α} (h : r.isOk = false) :
    ∃ e, r = .error e := by
  cases r with
  | ok a => cases h
  | error e => exact ⟨e, rfl⟩

/-- Lists within lists over two lines, with parentheses in a string, and an empty list at the
end. -/
def nestedSource : List UInt8 := Text.bytes "(a (b\n \")(\" -) '()) ()"

/-- One parenthesis too many, and then one that is never closed. -/
def unbalancedSource : List UInt8 := Text.bytes "(a)) (b"

theorem reading_inverts_flattening_nested :
    (∃ us es, tokenize (Text.decode nestedSource) = .ok us ∧ readBytes nestedSource = .ok es ∧
      Balanced us ∧
      flattenAll es = us.dropLast.map Token.kept ∧
      (nodesAll es).map label = (us.dropLast.filter fun t => t.kind ≠ .closeList).map Token.label ∧
      ∃ a, Arena.plant us = .ok a ∧ a.HoldsForest es) ∧
    ∃ us e, tokenize (Text.decode unbalancedSource) = .ok us ∧
      readBytes unbalancedSource = .error e ∧
      ¬Balanced us ∧ Arena.plant us = .error (.read e) ∧
      e.kind ∈ [ReadErrorKind.invalidContent, .unterminatedText, .unclosedList, .strayClose] := by
  have hnested : (tokenize (Text.decode nestedSource)).isOk = true ∧
      (readBytes nestedSource).isOk = true := by
    decide +kernel
  have hunbalanced : (tokenize (Text.decode unbalancedSource)).isOk = true ∧
      (readBytes unbalancedSource).isOk = false := by
    decide +kernel
  constructor
  · obtain ⟨us, hus⟩ := exists_of_isOk hnested.1
    obtain ⟨es, hes⟩ := exists_of_isOk hnested.2
    obtain ⟨hiff, hread, hlabel, hplant, -⟩ := (reading_inverts_flattening nestedSource).1 us hus
    rw [hes] at hplant
    refine ⟨us, es, hus, hes, hiff.1 ⟨es, hes⟩, ((hread es).1 hes).2, hlabel es hes, ?_⟩
    cases ha : Arena.plant us with
    | ok a =>
      rw [ha] at hplant
      exact ⟨a, rfl, hplant⟩
    | error e => simp [ha, Arena.SameEnd] at hplant
  · obtain ⟨us, hus⟩ := exists_of_isOk hunbalanced.1
    obtain ⟨e, he⟩ := exists_of_not_isOk hunbalanced.2
    obtain ⟨hiff, -, -, hplant, hpush⟩ := (reading_inverts_flattening unbalancedSource).1 us hus
    rw [he] at hplant hiff
    refine ⟨us, e, hus, he, fun hb => ?_, ?_, (reading_inverts_flattening unbalancedSource).2 e he⟩
    · obtain ⟨es, hes⟩ := hiff.2 hb
      cases hes
    · cases ha : Arena.plant us with
      | ok a => simp [ha, Arena.SameEnd] at hplant
      | error e' =>
        cases e' with
        | read e' =>
          rw [ha] at hplant
          rw [show e' = e from hplant]
        | push e' => exact absurd ha (hpush e')

end ListLang
