import ListLang.Proofs.Calculation
import ListLang.Proofs.IntegerNumerals

/-! Integer arithmetic is exact modulo 2^64. Every operation wraps, and still a calculation with
sums, differences and products gives its exact value, reduced once. -/

namespace ListLang

open Eval

/-- What the operators that keep to the integers do to them. -/
def Operator.exact? : Operator → Option (Int → Int → Int)
  | add => some (· + ·)
  | sub => some (· - ·)
  | mul => some (· * ·)
  | _ => none

/-- A calculation with sums, differences and products of integer literals within 64 bits, and its
exact value. -/
inductive ExactValue : Expr → Int → Prop where
  | literal {t : Token} {i : Int} :
      IntegerNumeral t.text.toList i → inInt64 i = true → ExactValue (.atom t) i
  | operation {p : Position} {t : Token} {op : Operator} {f : Int → Int → Int} {x y : Expr}
      {i j : Int} : t.Heads op →
      op.exact? = some f → ExactValue x i → ExactValue y j →
        ExactValue (.list p [.atom t, x, y]) (f i j)

section Exact

variable {e : Expr} {i : Int}

/-- Wrapping is a homomorphism. -/
theorem compute?_of_exact {op : Operator} {f : Int → Int → Int} (h : op.exact? = some f)
    (i j : Int) :
    op.compute? (.int (Int64.ofInt i)) (.int (Int64.ofInt j)) =
      some (.int (Int64.ofInt (f i j))) := by
  cases op with
  | add =>
    cases h
    simp only [Operator.compute?, Int64.ofInt_add]
  | sub =>
    cases h
    simp only [Operator.compute?, Int64.ofInt_sub]
  | mul =>
    cases h
    simp only [Operator.compute?, Int64.ofInt_mul]
  | div | mod => cases h

theorem reads_of_numeral {t : Token} (h : IntegerNumeral t.text.toList i)
    (hrange : inInt64 i = true) :
    t.Reads (.int (Int64.ofInt i)) := ofChars?_of_numeral h hrange

theorem ExactValue.calculation (h : ExactValue e i) : Calculation e := by
  induction h with
  | literal hnumeral hrange => exact .number (reads_of_numeral hnumeral hrange)
  | operation hhead _ _ _ ihx ihy => exact .operation hhead ihx ihy

theorem ExactValue.eq_of_yields (h : ExactValue e i) {n : Number} (hyields : Yields e n) :
    n = .int (Int64.ofInt i) := by
  induction h generalizing n with
  | literal hnumeral hrange =>
    cases hyields with
    | number hreads =>
      have hliteral := Option.some.inj ((reads_of_numeral hnumeral hrange).symm.trans hreads)
      cases n <;> cases hliteral
      rfl
  | @operation p t op f x y i j hhead hexact _ _ ihx ihy =>
    cases hyields with
    | operation hhead' hx hy hcompute =>
      obtain rfl := heads_unique hhead hhead'
      rw [ihx hx, ihy hy, compute?_of_exact hexact i j] at hcompute
      exact (Option.some.inj hcompute).symm

theorem ExactValue.exact_of_mem (h : ExactValue e i) {p : Position} {t : Token}
    {op : Operator} {x y : Expr}
    (hmem : .list p [.atom t, x, y] ∈ e.nodes) (hhead : t.Heads op) : op.exact? ≠ none := by
  induction h with
  | literal => simp [Expr.nodes] at hmem
  | @operation q u op' f x' y' i j hhead' hexact _ _ ihx ihy =>
    rw [Expr.nodes_operation, List.mem_cons, List.mem_cons, List.mem_append] at hmem
    rcases hmem with hhere | hatom | hx | hy
    · cases hhere
      rw [heads_unique hhead hhead', hexact]
      exact Option.some_ne_none f
    · cases hatom
    · exact ihx hx
    · exact ihy hy

theorem ExactValue.not_failsAt (h : ExactValue e i) {ctx : Context} {op : Operator} {a b : Number} :
    ¬FailsAt ctx e op a b := by
  rintro ⟨hmem, hhead, -, -, -, -, hcompute⟩
  refine h.exact_of_mem hmem hhead ?_
  rcases (compute?_eq_none hcompute).1 with rfl | rfl <;> rfl

end Exact

/-- A calculation with sums, differences and products gives its exact value modulo 2^64 if there are
levels enough for it and the sink takes a record of each of its lists. It leaves the definitions and
bindings as they are, and goes the same way whatever they are. If the levels do not suffice it fails
for that. A sink that takes less than these records is the only other reason to fail. -/
theorem integer_arithmetic_is_exact (ctx : Context) {e : Expr} {i : Int} (h : ExactValue e i)
    (s : Session) :
    (e.height ≤ ctx.room ctx.fuel s.depth → ctx.Takes s e.lists →
      ∃ n t, eval ctx ctx.fuel e s = .ok (.int n) t ∧ n.toInt = i.bmod 18446744073709551616 ∧
        t.env = s.env) ∧
    (e.height ≤ ctx.room ctx.fuel s.depth → ¬ctx.Takes s e.lists →
      ∃ t, eval ctx ctx.fuel e s = .error (.error .sinkFull) t ∧ t.env = s.env) ∧
    (ctx.limit ≠ 0 → ctx.limit - s.depth < e.height →
      ∃ t, t.env = s.env ∧ (eval ctx ctx.fuel e s = .error (.error (.tooDeep ctx.limit)) t ∨
        ¬ctx.Takes s e.lists ∧ eval ctx ctx.fuel e s = .error (.error .sinkFull) t)) := by
  have hfuel : ctx.limit ≤ ctx.fuel + s.depth := ctx.limit_le_fuel.trans (Nat.le_add_right _ _)
  have hends := eval_calculation h.calculation ctx.fuel s hfuel
  generalize eval ctx ctx.fuel e s = r at hends ⊢
  cases hends with
  | @value n t hheight hyields htakes hleaves =>
    obtain rfl := h.eq_of_yields hyields
    refine ⟨fun _ _ => ⟨_, t, rfl, Int64.toInt_ofInt, hleaves.env⟩,
      fun _ hfull => absurd htakes hfull, ?_⟩
    intro hlimit hdeep
    rw [Context.room, if_neg hlimit] at hheight
    omega
  | zero hfails => exact absurd hfails h.not_failsAt
  | @deep t hdeep henv =>
    refine ⟨fun hheight => absurd hheight (by omega), fun hheight => absurd hheight (by omega), ?_⟩
    intro hlimit _
    exact ⟨t, henv, Or.inl (by rw [Context.stop, if_neg hlimit])⟩
  | @full t hfull henv =>
    exact ⟨fun _ htakes => absurd htakes hfull, fun _ _ => ⟨t, rfl, henv⟩,
      fun _ _ => ⟨t, henv, Or.inr ⟨hfull, rfl⟩⟩⟩

/-- The square of the highest integer, less the lowest one. -/
def limitsOfRange : Expr :=
  Operator.sub.of
    (Operator.mul.of (.atom (numeral "9223372036854775807"))
      (.atom (numeral "9223372036854775807")))
    (.atom (numeral "-9223372036854775808"))

theorem limitsOfRange_exact :
    ExactValue limitsOfRange
      (9223372036854775807 * 9223372036854775807 - -9223372036854775808) := by
  have hmax : IntegerNumeral "9223372036854775807".toList
    (decimalValue "9223372036854775807".toList) :=
    .plain (by decide +kernel) (List.all_eq_true.1 (by decide +kernel))
  have hmin : IntegerNumeral "-9223372036854775808".toList
    (-(decimalValue "9223372036854775808".toList : Int)) :=
    .negative (by decide +kernel) (List.all_eq_true.1 (by decide +kernel))
  rw [show decimalValue "9223372036854775807".toList =
    9223372036854775807 by decide +kernel] at hmax
  rw [show decimalValue "9223372036854775808".toList =
    9223372036854775808 by decide +kernel] at hmin
  have hhighest : ExactValue (.atom (numeral "9223372036854775807")) 9223372036854775807 :=
    .literal hmax (by decide +kernel)
  have hlowest : ExactValue (.atom (numeral "-9223372036854775808")) (-9223372036854775808) :=
    .literal hmin (by decide +kernel)
  exact .operation (heads_token .sub) rfl
    (.operation (heads_token .mul) rfl hhighest hhighest) hlowest

/-- A function and a variable that are called like operators. -/
def namesakes : Session :=
  { Session.start with env :=
      (Environment.empty.define ⟨"-", none, []⟩).bind (some (.atom ⟨.star, "*", ⟨1, 1⟩⟩)) none }

theorem integer_arithmetic_is_exact_limitsOfRange :
    ExactValue limitsOfRange (9223372036854775807 * 9223372036854775807 - -9223372036854775808) ∧
    (namesakes.env.function? "-").isSome = true ∧ (namesakes.env.lookup? "*").isSome = true ∧
    limitsOfRange.height ≤ (plainUpTo 2).room (plainUpTo 2).fuel namesakes.depth ∧
    (∃ n t, eval (plainUpTo 2) (plainUpTo 2).fuel limitsOfRange namesakes = .ok (.int n) t ∧
      n.toInt = -9223372036854775807 ∧ t.env = namesakes.env) ∧
    (∃ t, eval (plainUpTo 1) (plainUpTo 1).fuel limitsOfRange namesakes =
      .error (.error (.tooDeep 1)) t) ∧
    ¬oneRecord.Takes .start limitsOfRange.lists ∧
    ∃ t, eval oneRecord oneRecord.fuel limitsOfRange .start = .error (.error .sinkFull) t := by
  have hheight : limitsOfRange.height = 2 := by decide +kernel
  have hlists : limitsOfRange.lists = 2 := by decide +kernel
  have hroom : limitsOfRange.height ≤ (plainUpTo 2).room (plainUpTo 2).fuel namesakes.depth := by
    rw [hheight]
    decide
  have hfull : ¬oneRecord.Takes .start limitsOfRange.lists := by
    intro htakes
    have hle := htakes 1 rfl
    omega
  obtain ⟨n, t, hvalue, hwrapped, henv⟩ :=
    (integer_arithmetic_is_exact (plainUpTo 2) limitsOfRange_exact namesakes).1 hroom
      (plainUpTo_takes _ _ _)
  obtain ⟨u, -, hdeep⟩ :=
    (integer_arithmetic_is_exact (plainUpTo 1) limitsOfRange_exact namesakes).2.2 (by decide)
    (by rw [hheight]; decide)
  obtain ⟨v, hcut, -⟩ := (integer_arithmetic_is_exact oneRecord limitsOfRange_exact .start).2.1
    (by rw [hheight]; decide) hfull
  refine ⟨limitsOfRange_exact,
    by decide +kernel, by decide +kernel, hroom, ⟨n, t, hvalue, hwrapped, henv⟩, ⟨u, ?_⟩,
    hfull, v, hcut⟩
  rcases hdeep with hdeep | ⟨htakes, -⟩
  · exact hdeep
  · exact absurd (plainUpTo_takes _ _ _) htakes

/-- Two lists, into a sink that takes one record: there is no value. -/
theorem exact_value_needs_records :
    ¬∀ (ctx : Context) (e : Expr) (i : Int) (s : Session), ExactValue e i →
      e.height ≤ ctx.room ctx.fuel s.depth →
      ∃ n t, eval ctx ctx.fuel e s = .ok (.int n) t ∧ n.toInt = i.bmod 18446744073709551616 := by
  intro h
  have hfails : (answer (eval oneRecord oneRecord.fuel limitsOfRange .start)).isOk = false := by
    decide +kernel
  obtain ⟨n, t, hvalue, -⟩ :=
    h oneRecord limitsOfRange _ .start limitsOfRange_exact (by decide +kernel)
  rw [hvalue] at hfails
  cases hfails

end ListLang
