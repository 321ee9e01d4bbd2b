import ListLang.Proofs.Calculation
import ListLang.Proofs.DocumentedFailures
import ListLang.Proofs.IntegerNumerals
import ListLang.Proofs.Rounding

/-! Numeric literals. A numeral is read as an integer exactly where it has no point and fits 64
bits, and then exactly. With more than one point it is no literal. Else it is a double, unless it is
too large for one. -/

namespace ListLang

open Binary64

/-! What numerals are worth. -/

/-- The digits before the point, and those after it as a decimal fraction. -/
def magnitudeOf (ds : List Char) : ℚ :=
  decimalValue (ds.takeWhile (· ≠ '.')) +
    decimalValue (ds.dropWhile (· ≠ '.')).tail / 10 ^ (ds.dropWhile (· ≠ '.')).tail.length

def numeralValue (cs : List Char) : ℚ :=
  if cs.head? = some '-' then -magnitudeOf cs.tail else magnitudeOf cs

/-- A numeral after its sign. -/
structure Unsigned (ds : List Char) : Prop where
  first : ∃ d rest, ds = d :: rest ∧ d.isDigit = true
  body : ∀ d ∈ ds, d.isDigit = true ∨ d = '.'

section Worth

variable {cs ds : List Char} {negative : Bool}

theorem unsigned_iff :
    Unsigned ds ↔ (ds.head?.any Char.isDigit && ds.all isNumericBody) = true := by
  rw [Bool.and_eq_true, List.all_eq_true]
  constructor
  · intro h
    obtain ⟨d, rest, rfl, hd⟩ := h.first
    exact ⟨hd, fun e he => by simpa [isNumericBody] using h.body e he⟩
  · rintro ⟨hfirst, hbody⟩
    refine ⟨?_, fun e he => by simpa [isNumericBody] using hbody e he⟩
    cases ds with
    | nil => cases hfirst
    | cons d rest => exact ⟨d, rest, rfl, hfirst⟩

instance (ds : List Char) : Decidable (Unsigned ds) := decidable_of_iff _ unsigned_iff.symm

theorem magnitudeOf_nonneg (ds : List Char) : 0 ≤ magnitudeOf ds := by
  unfold magnitudeOf
  positivity

theorem magnitudeOf_digits (h : '.' ∉ ds) : magnitudeOf ds = decimalValue ds := by
  have hall : ∀ d ∈ ds, (decide (d ≠ '.')) = true := by
    intro d hd
    simp only [ne_eq, decide_eq_true_eq]
    rintro rfl
    exact h hd
  have hdrop : ds.dropWhile (· ≠ '.') = [] := List.dropWhile_eq_nil_iff.2 hall
  have htake : ds.takeWhile (· ≠ '.') = ds := List.takeWhile_eq_self_iff.2 hall
  rw [magnitudeOf, hdrop, htake]
  simp [decimalValue]

/-- A numeral is a sign, or none, and the rest. -/
theorem split_numeral (h : Lexeme .numeric cs) :
    ∃ negative ds, splitSign cs = (negative, ds) ∧ Unsigned ds ∧
    cs = (if negative then '-' :: ds else ds) := by
  cases h with
  | @numeric c rest first hrest =>
    have hsplit : splitSign (c :: rest) = (false, c :: rest) := by
      have hminus : c ≠ '-' := ne_of_class (p := Char.isDigit) first rfl
      have hplus : c ≠ '+' := ne_of_class (p := Char.isDigit) first rfl
      simp [splitSign, hminus, hplus]
    exact ⟨false, c :: rest, hsplit,
      ⟨⟨c, rest, rfl, first⟩, List.forall_mem_cons.2 ⟨Or.inl first, hrest⟩⟩, rfl⟩
  | @negative c rest first hrest =>
    exact ⟨true, c :: rest, rfl,
      ⟨⟨c, rest, rfl, first⟩, List.forall_mem_cons.2 ⟨Or.inl first, hrest⟩⟩, rfl⟩

theorem Unsigned.lexeme (h : Unsigned ds) (negative : Bool) :
    Lexeme .numeric (if negative then '-' :: ds else ds) := by
  obtain ⟨d, rest, rfl, hd⟩ := h.first
  have hrest : ∀ e ∈ rest, e.isDigit = true ∨ e = '.' :=
    fun e he => h.body e (List.mem_cons_of_mem _ he)
  cases negative with
  | true => exact .negative hd hrest
  | false => exact .numeric hd hrest

theorem numeralValue_eq (h : Unsigned ds) :
    numeralValue (if negative then '-' :: ds else ds) = if negative then -magnitudeOf ds
      else magnitudeOf ds := by
  cases negative with
  | true => simp [numeralValue]
  | false =>
    obtain ⟨d, rest, rfl, hd⟩ := h.first
    have hminus : d ≠ '-' := ne_of_class (p := Char.isDigit) hd rfl
    simp [numeralValue, hminus]

theorem numeralValue_digits (h : Unsigned ds) (negative : Bool) (hpoint : '.' ∉ ds) :
    numeralValue (if negative then '-' :: ds else ds) = if negative then -(decimalValue ds : ℚ)
      else decimalValue ds := by
  rw [numeralValue_eq h, magnitudeOf_digits hpoint]

theorem abs_numeralValue (h : Unsigned ds) (negative : Bool) :
    |numeralValue (if negative then '-' :: ds else ds)| = magnitudeOf ds := by
  rw [numeralValue_eq h]
  cases negative <;> simp [abs_of_nonneg (magnitudeOf_nonneg ds)]

theorem count_point (ds : List Char) :
    (if negative then '-' :: ds else ds).count '.' = ds.count '.' := by
  cases negative <;> simp

end Worth

/-! Integers. -/

section Integers

variable {cs : List Char}

theorem inInt64_iff {i : Int} : inInt64 i = true ↔ -2 ^ 63 ≤ i ∧ i ≤ 2 ^ 63 - 1 := by
  simp only [inInt64, Bool.and_eq_true, decide_eq_true_eq]
  omega

theorem toInt_ofInt_of_inInt64 {i : Int} (h : inInt64 i = true) : (Int64.ofInt i).toInt = i := by
  rw [inInt64_iff] at h
  exact Int64.toInt_ofInt_of_le (by omega) (by omega)

theorem inInt64_toInt (n : Int64) : inInt64 n.toInt = true := by
  have hlow := n.le_toInt
  have hhigh := n.toInt_lt
  exact inInt64_iff.2 (by omega)

/-- Digits are read as the integer that they are worth, if it fits. -/
theorem readInt?_numeral (h : Lexeme .numeric cs) (hpoint : '.' ∉ cs) :
    ∃ i : Int, (i : ℚ) = numeralValue cs ∧ readInt? cs = if inInt64 i then some (Int64.ofInt i)
      else none := by
  obtain ⟨negative, ds, hsplit, hds, rfl⟩ := split_numeral h
  have hpoint : '.' ∉ ds := by
    intro hm
    refine hpoint ?_
    split
    · exact List.mem_cons_of_mem _ hm
    · exact hm
  have hdigits : ∀ d ∈ ds, d.isDigit = true := by
    intro d hd
    rcases hds.body d hd with hdigit | rfl
    · exact hdigit
    · exact absurd hd hpoint
  have hfine : (ds.isEmpty || !ds.all Char.isDigit) = false := by
    obtain ⟨d, rest, rfl, -⟩ := hds.first
    simpa using hdigits
  refine ⟨if negative then -(decimalValue ds : Int) else decimalValue ds, ?_, ?_⟩
  · rw [numeralValue_digits hds _ hpoint]
    cases negative <;> simp
  · simp only [readInt?, hsplit, hfine, ofDigits_eq_decimalValue]
    rfl

theorem readInt?_of_point (h : Lexeme .numeric cs) (hpoint : '.' ∈ cs) : readInt? cs = none := by
  obtain ⟨negative, ds, hsplit, hds, rfl⟩ := split_numeral h
  have hpoint : '.' ∈ ds := by
    cases negative <;> simpa using hpoint
  have hbad : (ds.isEmpty || !ds.all Char.isDigit) = true := by
    simp only [Bool.or_eq_true, Bool.not_eq_true', List.all_eq_false]
    exact Or.inr ⟨'.', hpoint, by decide⟩
  simp only [readInt?, hsplit, hbad, if_true]

/-- An integer is read where there is no point and the integer is that of the numeral. -/
theorem readInt?_eq_some_iff (h : Lexeme .numeric cs) {n : Int64} :
    readInt? cs = some n ↔ '.' ∉ cs ∧ (n.toInt : ℚ) = numeralValue cs := by
  by_cases hpoint : '.' ∈ cs
  · rw [readInt?_of_point h hpoint]
    simp [hpoint]
  · obtain ⟨i, hi, hread⟩ := readInt?_numeral h hpoint
    rw [hread, ← hi, Int.cast_inj]
    by_cases hrange : inInt64 i = true
    · rw [if_pos hrange, Option.some.injEq, ← Int64.toInt_inj, toInt_ofInt_of_inInt64 hrange]
      exact ⟨fun heq => ⟨hpoint, heq.symm⟩, fun heq => heq.2.symm⟩
    · rw [if_neg hrange]
      refine iff_of_false (by simp) fun heq => hrange ?_
      rw [← heq.2]
      exact inInt64_toInt n

theorem exists_readInt?_iff (h : Lexeme .numeric cs) :
    (∃ n, readInt? cs = some n) ↔ '.' ∉ cs ∧ -2 ^ 63 ≤ numeralValue cs ∧ numeralValue cs ≤
      2 ^ 63 - 1 := by
  by_cases hpoint : '.' ∈ cs
  · rw [readInt?_of_point h hpoint]
    simp [hpoint]
  · obtain ⟨i, hi, hread⟩ := readInt?_numeral h hpoint
    have hrange : inInt64 i = true ↔ -2 ^ 63 ≤ numeralValue cs ∧ numeralValue cs ≤ 2 ^ 63 - 1 := by
      rw [inInt64_iff, ← hi]
      norm_cast
    rw [hread, ← hrange]
    by_cases hfits : inInt64 i = true <;> simp [hfits, hpoint]

end Integers

/-! Doubles. -/

section Doubles

open FloatReader

variable {cs ds : List Char} {negative : Bool}

theorem decimalValue_append (as bs : List Char) :
    decimalValue (as ++ bs) = decimalValue as * 10 ^ bs.length + decimalValue bs := by
  simp only [decimalValue, List.reverse_append, List.map_append, Nat.ofDigits_append,
    List.length_map, List.length_reverse]
  ring

theorem filterMap_digits (h : ∀ d ∈ ds, d.isDigit = true) :
    ds.filterMap Base.decimal.digit? = ds.map digitValue := by
  induction ds with
  | nil => rfl
  | cons d ds ih =>
    have hd : Base.decimal.digit? d = some (digitValue d) := by
      simp [Base.digit?, h d List.mem_cons_self]
    rw [List.filterMap_cons_some hd, List.map_cons, ih fun e he => h e (List.mem_cons_of_mem _ he)]

theorem Unsigned.before_point (h : Unsigned ds) :
    ∀ d ∈ ds.takeWhile (· ≠ '.'), d.isDigit = true := by
  intro d hd
  have hne : d ≠ '.' := by simpa using List.mem_takeWhile_imp hd
  exact (h.body d ((List.takeWhile_subset _) hd)).resolve_right hne

/-- What the first point and all after it come to. -/
theorem Unsigned.after_point (h : Unsigned ds) (hpoints : ds.count '.' ≤ 1) :
    (∀ d ∈ (ds.dropWhile (· ≠ '.')).tail, d.isDigit = true) ∧
      (ds.dropWhile (· ≠ '.')).filterMap Base.decimal.digit? =
        (ds.dropWhile (· ≠ '.')).tail.map digitValue := by
  have hcount : (ds.takeWhile (· ≠ '.')).count '.' + (ds.dropWhile (· ≠ '.')).count '.' =
      ds.count '.' := by
    rw [← List.count_append, List.takeWhile_append_dropWhile]
  have hbody : ∀ d ∈ ds.dropWhile (· ≠ '.'), d.isDigit = true ∨ d = '.' :=
    fun d hd => h.body d ((List.dropWhile_subset _) hd)
  have hhead := List.head?_dropWhile_not (fun d => decide (d ≠ '.')) ds
  generalize ds.dropWhile (· ≠ '.') = rest at hcount hbody hhead ⊢
  cases rest with
  | nil => simp
  | cons c rest =>
    obtain rfl : c = '.' := by simpa using hhead
    have hnone : '.' ∉ rest := by
      rw [← List.count_eq_zero]
      rw [List.count_cons_self] at hcount
      omega
    have hdigits : ∀ d ∈ rest, d.isDigit = true := by
      intro d hd
      rcases hbody d (List.mem_cons_of_mem _ hd) with hdigit | rfl
      · exact hdigit
      · exact absurd hd hnone
    have hskip : Base.decimal.digit? '.' = none := rfl
    exact ⟨hdigits, by rw [List.filterMap_cons_none hskip, filterMap_digits hdigits,
      List.tail_cons]⟩

theorem compose_decimal (negative : Bool) (n places : Nat) : ∃ num den : Nat, 0 < den ∧
    (num : ℚ) / den = n / 10 ^ places ∧ compose negative .decimal n places 0 =
      nearest negative num den := by
  rcases Nat.eq_zero_or_pos n with rfl | hn
  · exact ⟨0, 1, one_pos, by simp, by simp [compose]⟩
  rcases Nat.eq_zero_or_pos places with rfl | hplaces
  · exact ⟨n * pow10 0, 1, one_pos, by simp [pow10], by simp [compose, hn.ne']⟩
  · refine ⟨n, pow10 places, ?_, ?_, ?_⟩
    · simp [pow10]
    · simp [pow10]
    · simp [compose, hn.ne', hplaces.ne']

theorem toLower_of_isDigit {c : Char} (h : c.isDigit = true) : c.toLower = c := by
  have hd : c.isDigit = (c.val ≥ 48 && c.val ≤ 57) := rfl
  rw [hd] at h
  simp only [Bool.and_eq_true, decide_eq_true_eq, ge_iff_le, UInt32.le_iff_toNat_le,
    UInt32.reduceToNat] at h
  refine dif_neg ?_
  simp only [UInt32.le_iff_toNat_le, ge_iff_le]
  intro hupper
  have hlow : 'A'.val.toNat = 65 := rfl
  omega

theorem Unsigned.toLower_ne {d : Char} (h : Unsigned ds) (hd : d ∈ ds) {letter : Char}
    (hletter : letter.isAlpha = true) :
    d.toLower ≠ letter := by
  rintro rfl
  rcases h.body d hd with hdigit | rfl
  · rw [toLower_of_isDigit hdigit] at hletter
    rw [isDigit_of_isAlpha hletter] at hdigit
    cases hdigit
  · exact absurd hletter (by decide)

theorem splitBase_unsigned (h : Unsigned ds) : splitBase ds = (.decimal, ds) := by
  unfold splitBase
  split
  · rename_i x c rest
    rw [if_neg (h.toLower_ne (by simp) (by decide))]
  · rfl

/-- A numeral spells no infinity and no NaN. -/
theorem readFloat?_numeral (hsplit : splitSign cs = (negative, ds)) (h : Unsigned ds)
    (hcs : cs = if negative then '-' :: ds else ds) : readFloat? cs = readNumeral? negative ds := by
  obtain ⟨d, rest, rfl, -⟩ := h.first
  have hword : ∀ {letter : Char} {w : List Char}, letter.isAlpha = true →
      String.ofList ((d :: rest).map Char.toLower) ≠ String.ofList (letter :: w) := by
    intro letter w hletter heq
    have heq := String.ofList_injective heq
    rw [List.map_cons] at heq
    exact h.toLower_ne List.mem_cons_self hletter (List.cons.inj heq).1
  have hnan : cs.map Char.toLower ≠ ['n', 'a', 'n'] := by
    intro heq
    rw [hcs] at heq
    cases negative with
    | true => exact absurd (List.cons.inj heq).1 (by decide)
    | false => exact h.toLower_ne List.mem_cons_self (by decide) (List.cons.inj heq).1
  have hinf : String.ofList ((d :: rest).map Char.toLower) ≠ "inf" := hword (by decide)
  have hinfinity : String.ofList ((d :: rest).map Char.toLower) ≠ "infinity" := hword (by decide)
  simp only [readFloat?, hsplit, hinf, hinfinity, hnan, decide_false, Bool.or_self,
    Bool.false_eq_true, if_false]

/-- The double that the digits of a decimal numeral make, those after the first point counting as
places. -/
def composed (negative : Bool) (ds : List Char) : Float :=
  compose negative .decimal
    (((ds.takeWhile (· ≠ '.')).filterMap Base.decimal.digit? ++
      (ds.dropWhile (· ≠ '.')).filterMap Base.decimal.digit?).foldl (fun n d => 10 * n + d) 0)
    ((ds.dropWhile (· ≠ '.')).filterMap Base.decimal.digit?).length 0

theorem readNumeral?_unsigned (h : Unsigned ds) : readNumeral? negative ds =
    if 1 < ds.count '.' then none
    else if isInfinite (composed negative ds) then none else some (composed negative ds) := by
  have hpart : ∀ d ∈ ds, ((Base.decimal.digit? d).isSome || d = '.' || d = '_') = true := by
    intro d hd
    rcases h.body d hd with hdigit | rfl
    · simp [Base.digit?, hdigit]
    · rfl
  have htake := List.takeWhile_eq_self_iff.2 hpart
  have hdrop := List.dropWhile_eq_nil_iff.2 hpart
  have hwhole : ((ds.takeWhile (· ≠ '.')).filterMap Base.decimal.digit?).isEmpty = false := by
    rw [filterMap_digits h.before_point]
    obtain ⟨d, rest, rfl, hd⟩ := h.first
    have hne : d ≠ '.' := ne_of_class (p := Char.isDigit) hd rfl
    simp [hne]
  have hunderscores : underscoresFit ds = true := by
    have hnone : '_' ∉ ds := by
      intro hm
      rcases h.body _ hm with hdigit | heq
      · cases hdigit
      · cases heq
    simp [underscoresFit, hnone]
  have hexponent : readExponent? .decimal [] = some 0 := rfl
  simp only [readNumeral?, splitBase_unsigned h, htake, hdrop, hwhole, hunderscores, hexponent]
  simp [Base.radix, composed]

/-- With one point at most, this is the nearest double to what the numeral is worth. -/
theorem composed_eq (negative : Bool) (h : Unsigned ds) (hpoints : ds.count '.' ≤ 1) : ∃ num den :
    Nat, 0 < den ∧
    (num : ℚ) / den = magnitudeOf ds ∧ composed negative ds = nearest negative num den := by
  have hcomposed : composed negative ds = compose negative .decimal
      (ofDigits (ds.takeWhile (· ≠ '.') ++ (ds.dropWhile (· ≠ '.')).tail))
        (ds.dropWhile (· ≠ '.')).tail.length 0 := by
    rw [composed, filterMap_digits h.before_point, (h.after_point hpoints).2, ← List.map_append,
      List.foldl_map, List.length_map, ofDigits]
  rw [hcomposed, magnitudeOf]
  generalize ds.takeWhile (· ≠ '.') = whole
  generalize (ds.dropWhile (· ≠ '.')).tail = fraction
  obtain ⟨num, den, hden, hvalue, hcompose⟩ :=
    compose_decimal negative (ofDigits (whole ++ fraction)) fraction.length
  refine ⟨num, den, hden, ?_, hcompose⟩
  rw [hvalue, ofDigits_eq_decimalValue, decimalValue_append]
  push_cast
  rw [add_div, mul_div_cancel_right₀]
  positivity

/-- There is no double where there is more than one point, or where the numeral is too large. -/
theorem readFloat?_eq_none_iff (h : Lexeme .numeric cs) :
    readFloat? cs = none ↔ 2 ≤ cs.count '.' ∨ overflowBound ≤ |numeralValue cs| := by
  obtain ⟨negative, ds, hsplit, hds, hcs⟩ := split_numeral h
  rw [readFloat?_numeral hsplit hds hcs, hcs, abs_numeralValue hds, count_point,
    readNumeral?_unsigned hds]
  by_cases hpoints : 1 < ds.count '.'
  · rw [if_pos hpoints]
    exact iff_of_true rfl (Or.inl hpoints)
  · obtain ⟨num, den, hden, hvalue, hcomposed⟩ := composed_eq negative hds (by omega)
    rw [if_neg hpoints, hcomposed, ← hvalue, ← isInfinite_nearest negative hden]
    simp [Nat.succ_le_iff, hpoints]

end Doubles

/-! Literals. -/

/-- A numeral without a point that is worth an integer of 64 bits. -/
def FitsInt64 (cs : List Char) : Prop :=
  '.' ∉ cs ∧ -2 ^ 63 ≤ numeralValue cs ∧ numeralValue cs ≤ 2 ^ 63 - 1

/-- What a numeral can be read as. -/
inductive ReadAs (cs : List Char) : Option Literal → Prop where
  | int {n : Int64} : FitsInt64 cs → (n.toInt : ℚ) = numeralValue cs → ReadAs cs (some (.int n))
  | float {x : Float} :
      ¬FitsInt64 cs → cs.count '.' ≤ 1 → |numeralValue cs| < overflowBound →
      ReadAs cs (some (.float x))
  | points : ¬FitsInt64 cs → 2 ≤ cs.count '.' → ReadAs cs none
  | overflow : ¬FitsInt64 cs → cs.count '.' ≤ 1 → overflowBound ≤ |numeralValue cs| → ReadAs cs none

section Literals

variable {cs : List Char}

theorem startsNumber_numeral (h : Lexeme .numeric cs) : Literal.startsNumber cs = true := by
  cases h with
  | numeric first _ => simp [Literal.startsNumber, first]
  | negative _ _ => rfl

theorem ofChars?_of_readInt? (h : Lexeme .numeric cs) {n : Int64} (hread : readInt? cs = some n) :
    Literal.ofChars? cs = some (.int n) := by
  simp only [Literal.ofChars?, startsNumber_numeral h, hread, if_true]

theorem ofChars?_of_readFloat? (h : Lexeme .numeric cs) (hread : readInt? cs = none) :
    Literal.ofChars? cs = (readFloat? cs).map .float := by
  simp only [Literal.ofChars?, startsNumber_numeral h, hread, if_true]

theorem numeral_readAs (h : Lexeme .numeric cs) : ReadAs cs (Literal.ofChars? cs) := by
  have hint := exists_readInt?_iff h
  have hfloat := readFloat?_eq_none_iff h
  cases hread : readInt? cs with
  | some n =>
    rw [ofChars?_of_readInt? h hread]
    exact .int (hint.1 ⟨n, hread⟩) ((readInt?_eq_some_iff h).1 hread).2
  | none =>
    have hnot : ¬FitsInt64 cs := by
      intro hfits
      obtain ⟨n, hn⟩ := hint.2 hfits
      rw [hread] at hn
      cases hn
    rw [ofChars?_of_readFloat? h hread]
    cases hdouble : readFloat? cs with
    | some x =>
      rw [hdouble] at hfloat
      have hfine := mt hfloat.2 (by simp)
      rw [not_or, not_le, not_le] at hfine
      exact .float hnot (Nat.lt_succ_iff.1 hfine.1) hfine.2
    | none =>
      by_cases hpoints : 2 ≤ cs.count '.'
      · exact .points hnot hpoints
      · exact .overflow hnot (by omega) ((hfloat.1 hdouble).resolve_left hpoints)

end Literals

/-! Tokens. -/

section Tokens

variable {t : Token} {cs : List Char} {k : TokenKind} {w : List Char}

theorem evalAtom_of_ofText? {l : Literal} (h : Literal.ofText? t.text = some l) (s : Session) :
    evalAtom t s = .ok (.ofLiteral l) s := by
  have hliteral : (Expr.atom t).literal = .ok l := by simp only [Expr.literal, h]
  rw [evalAtom, hliteral]
  rfl

theorem evalAtom_of_malformed (h : Literal.ofText? t.text = none) (s : Session) :
    evalAtom t s = .error (.error (.invalidLiteral (.malformed t.text))) s := by
  have hliteral : (Expr.atom t).literal = .error (.malformed t.text) := by
    simp only [Expr.literal, h]
  rw [evalAtom, hliteral]
  rfl

/-- A lexeme by itself is one token. -/
theorem tokenize_lexeme (h : Lexeme k w) :
    ∃ t, tokenize w = .ok [t, endToken w] ∧ t.kind = k ∧ t.text.toList = w := by
  have hspells : Spells w [(k, w)] := by
    have hlexeme : Spells (w ++ []) [(k, w)] := .lexeme h (by simp) .nil
    rwa [List.append_nil] at hlexeme
  obtain ⟨ts, htokens, hts⟩ := tokenize_of_spells hspells h.newline_notMem
  obtain ⟨t, rest, rfl, ht, hrest⟩ := List.map_eq_cons_iff.1 hts
  obtain rfl := List.map_eq_nil_iff.1 hrest
  obtain ⟨hkind, htext⟩ := Prod.mk.inj ht
  exact ⟨t, htokens, hkind, htext⟩

theorem read_lexeme (h : Lexeme k w) (ho : k ≠ .openList) (hc : k ≠ .closeList) :
    ∃ t, read w = .ok [.atom t] ∧ t.kind = k ∧ t.text.toList = w := by
  obtain ⟨t, htokens, hkind, htext⟩ := tokenize_lexeme h
  refine ⟨t, ?_, hkind, htext⟩
  rw [read_of_tokenize htokens, forest, build_atom _ _ _ (hkind ▸ h.isAtom ho hc),
    build_endOfText _ _ _ rfl]
  rfl

/-- The numeric tokens of all sources. -/
theorem exists_numeric_token_iff : (∃ source us t, tokenize (Text.decode source) = .ok us ∧ t ∈ us ∧
    t.kind = .numeric ∧ t.text.toList = cs) ↔ Lexeme .numeric cs := by
  constructor
  · rintro ⟨source, us, t, htokens, hmem, hkind, rfl⟩
    obtain ⟨ts, rfl, hclosed⟩ := closed_of_tokenize htokens
    rcases List.mem_append.1 hmem with ht | ht
    · exact hkind ▸ hclosed.lexeme t ht
    · rw [List.mem_singleton.1 ht] at hkind
      cases hkind
  · intro h
    obtain ⟨t, htokens, hkind, htext⟩ := tokenize_lexeme h
    refine ⟨Text.bytes (String.ofList cs), [t, endToken cs], t, ?_, List.mem_cons_self,
      hkind, htext⟩
    rw [Text.decode_bytes, String.toList_ofList, htokens]

end Tokens

/-! Printed integers. -/

section Printed

theorem decimalValue_toDigits (n : Nat) : decimalValue (Nat.toDigits 10 n) = n := by
  rw [← ofDigits_eq_decimalValue]
  exact Nat.ofDigitChars_ten_toDigits

theorem unsigned_toDigits (n : Nat) : Unsigned (Nat.toDigits 10 n) := by
  have hdigits : ∀ d ∈ Nat.toDigits 10 n, d.isDigit = true :=
    fun _ => Nat.isDigit_of_mem_toDigits (by decide) (by decide)
  obtain ⟨d, rest, hd⟩ := List.exists_cons_of_ne_nil (Nat.toDigits_ne_nil (n := n) (b := 10))
  exact ⟨⟨d, rest, hd, hdigits d (hd ▸ List.mem_cons_self)⟩, fun e he => Or.inl (hdigits e he)⟩

theorem point_notMem_toDigits (n : Nat) : '.' ∉ Nat.toDigits 10 n := by
  intro hm
  cases Nat.isDigit_of_mem_toDigits (by decide) (by decide) hm

theorem toList_intText (i : Int) : (intText i).toList =
    if decide (i < 0) then '-' :: Nat.toDigits 10 i.natAbs else Nat.toDigits 10 i.natAbs := by
  have hnat : (natText i.natAbs).toList = Nat.toDigits 10 i.natAbs := String.toList_ofList
  unfold intText
  by_cases hi : i < 0
  · rw [if_pos hi, String.toList_append, hnat, if_pos (decide_eq_true hi)]
    rfl
  · rw [if_neg hi, hnat, if_neg (by simpa using hi)]

theorem lexeme_intText (i : Int) : Lexeme .numeric (intText i).toList := by
  rw [toList_intText]
  exact (unsigned_toDigits i.natAbs).lexeme _

/-- A printed integer is worth that integer. -/
theorem numeralValue_intText (i : Int) :
    '.' ∉ (intText i).toList ∧ (i : ℚ) = numeralValue (intText i).toList := by
  have hpoint := point_notMem_toDigits i.natAbs
  rw [toList_intText, numeralValue_digits (unsigned_toDigits _) _ hpoint, decimalValue_toDigits]
  rcases lt_or_ge i 0 with hi | hi
  · refine ⟨by simp [hi, hpoint], ?_⟩
    rw [if_pos (decide_eq_true hi), ← Int.cast_natCast, Int.ofNat_natAbs_of_nonpos hi.le]
    push_cast
    ring
  · refine ⟨by simp [hi.not_gt, hpoint], ?_⟩
    rw [if_neg (by simpa using hi), ← Int.cast_natCast, Int.natAbs_of_nonneg hi]

theorem intText_injective {i j : Int} (h : intText i = intText j) : i = j := by
  have hvalue := (numeralValue_intText i).2
  rw [h, ← (numeralValue_intText j).2] at hvalue
  exact_mod_cast hvalue

theorem readInt?_intText (n : Int64) : readInt? (intText n.toInt).toList = some n :=
  (readInt?_eq_some_iff (lexeme_intText _)).2 (numeralValue_intText _)

/-- What an integer prints as is read and evaluated to that integer. -/
theorem run_intText (ctx : Context) (s : Session) (n : Int64) :
    runIn ctx s (intText n.toInt).toList = ⟨.ok [.int n], s⟩ := by
  obtain ⟨t, hread, -, htext⟩ := read_lexeme (lexeme_intText n.toInt) (by decide) (by decide)
  have hliteral : Literal.ofText? t.text = some (.int n) := by
    rw [Literal.ofText?, htext]
    exact ofChars?_of_readInt? (lexeme_intText _) (readInt?_intText n)
  have heval : eval ctx ctx.fuel (.atom t) s = .ok (.int n) s := by
    rw [eval_atom, evalAtom_of_ofText? hliteral]
    rfl
  have hall : evalAll ctx [.atom t] s = .ok [.int n] s := Eval.bind_of_ok heval
  rw [runIn_of_read hread, hall]
  rfl

end Printed

/-- An integer that is printed is read back as itself. The numeric tokens are a digit with digits
and points behind it, and a minus sign before it or none. Such a token is an integer exactly where
it has no point and its value is within 64 bits, and it is that value. With two points or more it is
no literal. Otherwise it is a double, or it is no literal where the nearest double would be an
infinity. -/
theorem numerals_are_classified (ctx : Context) :
    (∀ n : Int64, (run ctx (Text.decode (Text.bytes (Value.int n).display))).result =
      .ok [.int n]) ∧
    (∀ cs, (∃ source us t, tokenize (Text.decode source) = .ok us ∧ t ∈ us ∧ t.kind = .numeric ∧
      t.text.toList = cs) ↔
      Lexeme .numeric cs) ∧
    ∀ (t : Token) (fuel : Nat) (s : Session), Lexeme .numeric t.text.toList →
      ((∃ n, eval ctx fuel (.atom t) s = .ok (.int n) s) ↔ FitsInt64 t.text.toList) ∧
      (∀ n, eval ctx fuel (.atom t) s = .ok (.int n) s → (n.toInt : ℚ) =
        numeralValue t.text.toList) ∧
      (2 ≤ t.text.toList.count '.' → ∃ e, e.kind = .value ∧ eval ctx fuel (.atom t) s =
        .error (.error e) s) ∧
      (t.text.toList.count '.' ≤ 1 → ¬FitsInt64 t.text.toList →
        |numeralValue t.text.toList| < overflowBound ∧
          (∃ x, eval ctx fuel (.atom t) s = .ok (.float x) s) ∨
        overflowBound ≤ |numeralValue t.text.toList| ∧
          ∃ e, e.kind = .value ∧ eval ctx fuel (.atom t) s = .error (.error e) s) := by
  refine ⟨fun n => ?_, fun cs => exists_numeric_token_iff, fun t fuel s h => ?_⟩
  · rw [Text.decode_bytes, run, Value.display, run_intText]
  · have hread : ReadAs t.text.toList (Literal.ofText? t.text) := numeral_readAs h
    have hvalue := fun l hl => evalAtom_of_ofText? (t := t) (l := l) hl s
    have hmalformed : Literal.ofText? t.text = none →
        ∃ e : EvalError, e.kind = .value ∧ evalAtom t s = .error (.error e) s :=
      fun hnone => ⟨_, rfl, evalAtom_of_malformed hnone s⟩
    rw [eval_atom]
    generalize Literal.ofText? t.text = r at hread hvalue hmalformed
    cases hread with
    | @int n hfits hn =>
      have heval : evalAtom t s = .ok (.int n) s := hvalue _ rfl
      have hnone : t.text.toList.count '.' = 0 := List.count_eq_zero.2 hfits.1
      rw [heval]
      refine ⟨iff_of_true ⟨n, rfl⟩ hfits, ?_, fun hpoints => absurd hpoints (by omega),
        fun _ hnot => absurd hfits hnot⟩
      rintro m hm
      cases hm
      exact hn
    | @float x hnot hpoints hbound =>
      have heval : evalAtom t s = .ok (.float x) s := hvalue _ rfl
      rw [heval]
      exact ⟨iff_of_false (by simp) hnot, by simp, fun hmore => absurd hmore (by omega),
        fun _ _ => Or.inl ⟨hbound, x, rfl⟩⟩
    | points hnot hpoints =>
      obtain ⟨e, hkind, heval⟩ := hmalformed rfl
      rw [heval]
      exact ⟨iff_of_false (by simp) hnot,
        by simp, fun _ => ⟨e, hkind, rfl⟩, fun hfew => absurd hfew (by omega)⟩
    | overflow hnot hpoints hbound =>
      obtain ⟨e, hkind, heval⟩ := hmalformed rfl
      rw [heval]
      exact ⟨iff_of_false (by simp) hnot,
        by simp, fun _ => ⟨e, hkind, rfl⟩, fun _ _ => Or.inr ⟨hbound, e, hkind, rfl⟩⟩

/-- A one with 309 zeros behind it. -/
def hugeNumeral : List Char := '1' :: List.replicate 309 '0'

theorem int64_lt_overflowBound : (2 : ℚ) ^ 63 < overflowBound := by
  calc (2 : ℚ) ^ 63 ≤ 2 ^ 970 := pow_le_pow_right₀ one_le_two (by norm_num)
    _ < overflowBound := lt_mul_of_one_lt_left (by positivity) (by norm_num)

theorem hugeNumeral_overflows : overflowBound ≤ |numeralValue hugeNumeral| := by
  have hvalue : decimalValue hugeNumeral = 10 ^ 309 := by decide +kernel
  have hle : 2 ^ 1024 ≤ decimalValue hugeNumeral := by
    rw [hvalue]
    decide +kernel
  have habs : |numeralValue hugeNumeral| = magnitudeOf hugeNumeral :=
    abs_numeralValue (by decide +kernel) false
  rw [habs, magnitudeOf_digits (by decide +kernel)]
  calc overflowBound ≤ 2 ^ 54 * 2 ^ 970 := mul_le_mul_of_nonneg_right (by norm_num) (by positivity)
    _ = ((2 ^ 1024 : Nat) : ℚ) := by rw [← pow_add, Nat.cast_pow, Nat.cast_ofNat]
    _ ≤ decimalValue hugeNumeral := Nat.cast_le.2 hle

/-- The lowest integer with zeros before its digits, the first integer that is too high, two points,
and a number beyond all doubles. -/
theorem numerals_are_classified_limits :
    (run (plainUpTo 0) (Text.decode (Text.bytes (Value.int Int64.minValue).display))).result =
      .ok [.int Int64.minValue] ∧
    (∃ n, eval (plainUpTo 0) 0 (.atom (numeral "-0009223372036854775808")) .start =
      .ok (.int n) .start ∧
      (n.toInt : ℚ) = -9223372036854775808) ∧
    (∃ x, eval (plainUpTo 0) 0 (.atom (numeral "9223372036854775808")) .start =
      .ok (.float x) .start) ∧
    (∃ e, e.kind = .value ∧ eval (plainUpTo 0) 0 (.atom (numeral "1.2.")) .start =
      .error (.error e) .start) ∧
    ∃ e, e.kind = .value ∧
      eval (plainUpTo 0) 0 (.atom (numeral (String.ofList hugeNumeral))) .start =
        .error (.error e) .start := by
  obtain ⟨hprinted, -, htokens⟩ := numerals_are_classified (plainUpTo 0)
  have hlowest : Unsigned "0009223372036854775808".toList := by decide +kernel
  have hhigh : Unsigned "9223372036854775808".toList := by decide +kernel
  have hpoints : Unsigned "1.2.".toList := by decide +kernel
  have hhuge : Unsigned hugeNumeral := by decide +kernel
  have hlowestValue : numeralValue "-0009223372036854775808".toList = -9223372036854775808 := by
    refine (numeralValue_digits hlowest true (by decide +kernel)).trans ?_
    rw [show decimalValue "0009223372036854775808".toList = 9223372036854775808 by decide +kernel]
    norm_num
  have hhighValue : numeralValue "9223372036854775808".toList = 9223372036854775808 := by
    refine (numeralValue_digits hhigh false (by decide +kernel)).trans ?_
    rw [show decimalValue "9223372036854775808".toList = 9223372036854775808 by decide +kernel]
    norm_num
  obtain ⟨hint, hexact, -⟩ :=
    htokens (numeral "-0009223372036854775808") 0 .start (hlowest.lexeme true)
  obtain ⟨n, hn⟩ := hint.2 ⟨by decide +kernel, by rw [numeral, hlowestValue]; norm_num⟩
  obtain ⟨-, -, -, hfloat⟩ := htokens (numeral "9223372036854775808") 0 .start (hhigh.lexeme false)
  obtain ⟨-, -, hmalformed, -⟩ := htokens (numeral "1.2.") 0 .start (hpoints.lexeme false)
  have hbound := int64_lt_overflowBound
  refine ⟨hprinted Int64.minValue, ⟨n, hn, (hexact n hn).trans hlowestValue⟩, ?_,
    hmalformed (by decide +kernel), ?_⟩
  · have hnot : ¬FitsInt64 "9223372036854775808".toList := by
      rintro ⟨-, -, hle⟩
      rw [hhighValue] at hle
      norm_num at hle
    rcases hfloat (by decide +kernel) hnot with ⟨-, hx⟩ | ⟨hlarge, -⟩
    · exact hx
    · rw [numeral, hhighValue, abs_of_pos (by norm_num)] at hlarge
      norm_num at hbound
      linarith
  · have hoverflow := htokens (numeral (String.ofList hugeNumeral)) 0 .start
    rw [show (numeral (String.ofList hugeNumeral)).text.toList =
      hugeNumeral from String.toList_ofList] at hoverflow
    obtain ⟨-, -, -, hoverflow⟩ := hoverflow (hhuge.lexeme false)
    have hlarge := hugeNumeral_overflows
    have hnot : ¬FitsInt64 hugeNumeral := by
      rintro ⟨-, hlow, hhigh⟩
      have hsmall : |numeralValue hugeNumeral| ≤ 2 ^ 63 := abs_le.2 ⟨hlow, by linarith⟩
      linarith
    rcases hoverflow (by decide +kernel) hnot with ⟨hsmall, -⟩ | ⟨-, he⟩
    · exact absurd hlarge (not_le.2 hsmall)
    · exact he

end ListLang
