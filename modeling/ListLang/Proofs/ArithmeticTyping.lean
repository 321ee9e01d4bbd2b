import ListLang.Proofs.Calculation

/-! The type of a calculation can be told before it is evaluated: it gives an integer exactly where
no number is a double and nothing is divided. If it has no result, that is for a divisor that is
zero. -/

namespace ListLang

open Eval

namespace Expr

/-- One of the numbers is a double. -/
def HasFloat (e : Expr) : Prop := ∃ t x, .atom t ∈ e.nodes ∧ t.Reads (.float x)

/-- One of the operations is a division. -/
def HasDivision (e : Expr) : Prop := ∃ p t x y, .list p [.atom t, x, y] ∈ e.nodes ∧ t.Heads .div

end Expr

section Parts

variable {p : Position} {t : Token} {op : Operator} {x y : Expr}

/-- An operator is no number. -/
theorem not_reads_of_heads (h : t.Heads op) (n : Number) : ¬t.Reads n := by
  intro hreads
  have hnone : (Literal.ofText? op.symbol).isNone = true := by cases op <;> decide +kernel
  rw [Token.Reads, h.text] at hreads
  rw [hreads] at hnone
  cases hnone

theorem hasFloat_number : (Expr.atom t).HasFloat ↔ ∃ x, t.Reads (.float x) := by
  simp [Expr.HasFloat, Expr.nodes]

theorem not_hasFloat_of_int {n : Int64} (h : t.Reads (.int n)) : ¬(Expr.atom t).HasFloat := by
  rw [hasFloat_number]
  rintro ⟨x, hfloat⟩
  cases Option.some.inj (h.symm.trans hfloat)

theorem not_hasDivision_number : ¬(Expr.atom t).HasDivision := by
  simp [Expr.HasDivision, Expr.nodes]

theorem hasFloat_operation (h : t.Heads op) :
    (Expr.list p [.atom t, x, y]).HasFloat ↔ x.HasFloat ∨ y.HasFloat := by
  unfold Expr.HasFloat
  simp only [Expr.nodes_operation, List.mem_cons, List.mem_append]
  constructor
  · rintro ⟨u, z, hhere | hhead | hx | hy, hreads⟩
    · cases hhere
    · cases hhead
      exact absurd hreads (not_reads_of_heads h _)
    · exact Or.inl ⟨u, z, hx, hreads⟩
    · exact Or.inr ⟨u, z, hy, hreads⟩
  · rintro (⟨u, z, hx, hreads⟩ | ⟨u, z, hy, hreads⟩)
    · exact ⟨u, z, Or.inr (Or.inr (Or.inl hx)), hreads⟩
    · exact ⟨u, z, Or.inr (Or.inr (Or.inr hy)), hreads⟩

theorem hasDivision_operation (h : t.Heads op) :
    (Expr.list p [.atom t, x, y]).HasDivision ↔ op = .div ∨ x.HasDivision ∨ y.HasDivision := by
  unfold Expr.HasDivision
  simp only [Expr.nodes_operation, List.mem_cons, List.mem_append]
  constructor
  · rintro ⟨q, u, v, w, hhere | hhead | hx | hy, hdiv⟩
    · cases hhere
      exact Or.inl (heads_unique h hdiv)
    · cases hhead
    · exact Or.inr (Or.inl ⟨q, u, v, w, hx, hdiv⟩)
    · exact Or.inr (Or.inr ⟨q, u, v, w, hy, hdiv⟩)
  · rintro (rfl | ⟨q, u, v, w, hx, hdiv⟩ | ⟨q, u, v, w, hy, hdiv⟩)
    · exact ⟨p, t, x, y, Or.inl rfl, h⟩
    · exact ⟨q, u, v, w, Or.inr (Or.inr (Or.inl hx)), hdiv⟩
    · exact ⟨q, u, v, w, Or.inr (Or.inr (Or.inr hy)), hdiv⟩

end Parts

/-! Types of numbers. -/

def Number.IsFloat (n : Number) : Prop := n.toValue.type = .float

theorem type_eq_int_iff (n : Number) : n.toValue.type = .int ↔ ¬n.IsFloat := by
  cases n <;> simp [Number.IsFloat, Number.toValue, Value.type]

theorem isFloat_int (n : Int64) : ¬(Number.int n).IsFloat := by
  simp [Number.IsFloat, Number.toValue, Value.type]

theorem isFloat_float (x : Float) : (Number.float x).IsFloat := rfl

/-- A result is a double after a division, and where one of the operands is a double. -/
theorem compute?_isFloat {op : Operator} {a b c : Number} (h : op.compute? a b = some c) :
    c.IsFloat ↔ op = .div ∨ a.IsFloat ∨ b.IsFloat := by
  cases op with
  | add | sub | mul =>
    cases a <;> cases b <;> cases h <;> simp [isFloat_int, isFloat_float]
  | div =>
    obtain rfl : .float (a.toFloat / b.toFloat) = c := by
      cases a <;> cases b <;> exact Option.some.inj (Option.ite_none_left_eq_some.1 h).2
    simp [isFloat_float]
  | mod =>
    cases a with
    | float x =>
      obtain rfl : .float (floorModFloat x b.toFloat) = c := by
        cases b <;> exact Option.some.inj (Option.ite_none_left_eq_some.1 h).2
      simp [isFloat_float]
    | int m =>
      cases b with
      | float y =>
        obtain rfl : .float (floorModFloat (Number.int m).toFloat y) = c :=
          Option.some.inj (Option.ite_none_left_eq_some.1 h).2
        simp [isFloat_float]
      | int n =>
        obtain rfl : .int (floorModInt m n) = c :=
          Option.some.inj (Option.ite_none_left_eq_some.1 h).2
        simp [isFloat_int]

/-- The type of what a calculation yields, from its numbers and operators. -/
theorem Yields.isFloat_iff {e : Expr} {n : Number} (h : Yields e n) :
    n.IsFloat ↔ e.HasFloat ∨ e.HasDivision := by
  induction h with
  | @number t n hreads =>
    cases n with
    | float x => exact iff_of_true (isFloat_float x) (Or.inl (hasFloat_number.2 ⟨x, hreads⟩))
    | int n =>
      exact iff_of_false (isFloat_int n)
        (not_or_intro (not_hasFloat_of_int hreads) not_hasDivision_number)
  | @operation p t op x y a b c hhead _ _ hcompute ihx ihy =>
    rw [compute?_isFloat hcompute, ihx, ihy, hasFloat_operation hhead, hasDivision_operation hhead]
    simp only [or_assoc, or_left_comm]

/-- With levels enough, a calculation yields a number, or it fails for a divisor that is zero, at a
division or a remainder whose right operand was evaluated to that. The number is an integer exactly
where the calculation has no double and no division, and a double otherwise. There is no other error
but that of a sink that takes fewer records than the calculation has lists. -/
theorem arithmetic_is_typed (ctx : Context) {e : Expr} (h : Calculation e) (s : Session)
    (hroom : e.height ≤ ctx.room ctx.fuel s.depth) :
    (∃ (n : Number) (t : Session), eval ctx ctx.fuel e s = .ok n.toValue t ∧
      (n.toValue.type = .int ↔ ¬e.HasFloat ∧ ¬e.HasDivision) ∧
      (n.toValue.type = .float ↔ e.HasFloat ∨ e.HasDivision)) ∨
    (∃ op a b t, eval ctx ctx.fuel e s =
      .error (.error (.divisionByZero op a.toValue.display b.toValue.display)) t ∧
      FailsAt ctx e op a b ∧ (op = .div ∨ op = .mod) ∧ b.isZero = true) ∨
    (¬ctx.Takes s e.lists ∧ ∃ t, eval ctx ctx.fuel e s = .error (.error .sinkFull) t) := by
  have hfuel : ctx.limit ≤ ctx.fuel + s.depth := ctx.limit_le_fuel.trans (Nat.le_add_right _ _)
  have hends := eval_calculation h ctx.fuel s hfuel
  generalize eval ctx ctx.fuel e s = r at hends ⊢
  cases hends with
  | @value n t _ hyields _ _ =>
    refine Or.inl ⟨n, t, rfl, ?_, hyields.isFloat_iff⟩
    rw [type_eq_int_iff, hyields.isFloat_iff, not_or]
  | @zero op a b t hfails _ =>
    obtain ⟨-, -, -, -, -, -, hcompute⟩ := id hfails
    exact Or.inr (Or.inl ⟨op, a, b, t, rfl, hfails, compute?_eq_none hcompute⟩)
  | deep hdeep _ => exact absurd hroom (by omega)
  | @full t hfull _ => exact Or.inr (Or.inr ⟨hfull, t, rfl⟩)

/-- A remainder by a negative difference. -/
def wholeRemainder : Expr :=
  Operator.mod.of (.atom (numeral "7")) (Operator.sub.of (.atom (numeral "2"))
    (.atom (numeral "5")))

/-- A quotient times an infinity. -/
def quotientOfInfinity : Expr :=
  Operator.mul.of (Operator.div.of (.atom (numeral "7")) (.atom (numeral "2")))
    (.atom (numeral "-inf"))

/-- A remainder by zero within a sum. -/
def vanishingDivisor : Expr :=
  Operator.add.of (.atom (numeral "2"))
    (Operator.mod.of (.atom (numeral "7")) (Operator.sub.of (.atom (numeral "5"))
      (.atom (numeral "5"))))

theorem reads_small :
    (numeral "2").Reads (.int 2) ∧ (numeral "5").Reads (.int 5) ∧ (numeral "7").Reads (.int 7) :=
  ⟨rfl, rfl, rfl⟩

theorem wholeRemainder_calculation : Calculation wholeRemainder := by
  obtain ⟨htwo, hfive, hseven⟩ := reads_small
  exact .operation (heads_token .mod) (.number hseven) (.operation (heads_token .sub) (.number htwo)
    (.number hfive))

theorem quotientOfInfinity_calculation : Calculation quotientOfInfinity := by
  obtain ⟨htwo, -, hseven⟩ := reads_small
  have hinfinity : (numeral "-inf").Reads (.float (Binary64.infinity true)) := rfl
  exact .operation (heads_token .mul) (.operation (heads_token .div) (.number hseven)
    (.number htwo))
    (.number hinfinity)

theorem vanishingDivisor_calculation : Calculation vanishingDivisor := by
  obtain ⟨htwo, hfive, hseven⟩ := reads_small
  exact .operation (heads_token .add) (.number htwo) (.operation (heads_token .mod) (.number hseven)
    (.operation (heads_token .sub) (.number hfive) (.number hfive)))

theorem wholeRemainder_integers : ¬wholeRemainder.HasFloat ∧ ¬wholeRemainder.HasDivision := by
  obtain ⟨htwo, hfive, hseven⟩ := reads_small
  unfold wholeRemainder Operator.of
  rw [hasFloat_operation (heads_token _), hasFloat_operation (heads_token _),
    hasDivision_operation (heads_token _), hasDivision_operation (heads_token _)]
  simp [not_hasFloat_of_int htwo, not_hasFloat_of_int hfive, not_hasFloat_of_int hseven,
    not_hasDivision_number]

theorem quotientOfInfinity_hasDivision : quotientOfInfinity.HasDivision := by
  unfold quotientOfInfinity Operator.of
  rw [hasDivision_operation (heads_token _), hasDivision_operation (heads_token _)]
  exact Or.inr (Or.inl (Or.inl rfl))

theorem arithmetic_is_typed_samples :
    (∃ (n : Number) (t : Session), eval (plainUpTo 3) (plainUpTo 3).fuel wholeRemainder .start =
      .ok n.toValue t ∧ n.toValue.type = .int) ∧
    (∃ (n : Number) (t : Session), eval (plainUpTo 3) (plainUpTo 3).fuel quotientOfInfinity .start =
      .ok n.toValue t ∧ n.toValue.type = .float) ∧
    (∃ op a b t, eval (plainUpTo 3) (plainUpTo 3).fuel vanishingDivisor .start =
      .error (.error (.divisionByZero op a.toValue.display b.toValue.display)) t ∧
      FailsAt (plainUpTo 3) vanishingDivisor op a b ∧ (op = .div ∨ op = .mod) ∧ b.isZero = true) ∧
    ¬oneRecord.Takes .start wholeRemainder.lists ∧
    ∃ t, eval oneRecord oneRecord.fuel wholeRemainder .start = .error (.error .sinkFull) t := by
  have hwhole :=
    arithmetic_is_typed (plainUpTo 3) wholeRemainder_calculation .start (by decide +kernel)
  have hquotient :=
    arithmetic_is_typed (plainUpTo 3) quotientOfInfinity_calculation .start (by decide +kernel)
  have hzero :=
    arithmetic_is_typed (plainUpTo 3) vanishingDivisor_calculation .start (by decide +kernel)
  have hcut := arithmetic_is_typed oneRecord wholeRemainder_calculation .start (by decide +kernel)
  refine ⟨?_, ?_, ?_, ?_⟩
  · have hvalue : failure? (eval (plainUpTo 3) (plainUpTo 3).fuel wholeRemainder .start) =
        none := by
      decide +kernel
    rcases hwhole with ⟨n, t, heval, hint, -⟩ | ⟨op, a, b, t, heval, -⟩ | ⟨hfull, -⟩
    · exact ⟨n, t, heval, hint.2 wholeRemainder_integers⟩
    · rw [heval] at hvalue
      cases hvalue
    · exact absurd (plainUpTo_takes _ _ _) hfull
  · have hvalue : (answer (eval (plainUpTo 3) (plainUpTo 3).fuel quotientOfInfinity .start)).isOk =
        true := by
      decide +kernel
    rcases hquotient with ⟨n, t, heval, -, hfloat⟩ | ⟨op, a, b, t, heval, -⟩ | ⟨hfull, -⟩
    · exact ⟨n, t, heval, hfloat.2 (Or.inr quotientOfInfinity_hasDivision)⟩
    · rw [heval] at hvalue
      cases hvalue
    · exact absurd (plainUpTo_takes _ _ _) hfull
  · have hfails : (answer (eval (plainUpTo 3) (plainUpTo 3).fuel vanishingDivisor .start)).isOk =
        false := by
      decide +kernel
    rcases hzero with ⟨n, t, heval, -⟩ | hzero | ⟨hfull, -⟩
    · rw [heval] at hfails
      cases hfails
    · exact hzero
    · exact absurd (plainUpTo_takes _ _ _) hfull
  · have hsink : failure? (eval oneRecord oneRecord.fuel wholeRemainder .start) =
        some (.error .sinkFull) := by
      decide +kernel
    rcases hcut with ⟨n, t, heval, -⟩ | ⟨op, a, b, t, heval, -⟩ | hfull
    · rw [heval] at hsink
      cases hsink
    · rw [heval] at hsink
      cases hsink
    · exact hfull

/-- Two lists, into a sink that takes one record: there is no number, and no divisor is zero. -/
theorem typed_result_needs_records :
    ¬∀ (ctx : Context) (e : Expr) (s : Session), Calculation e → e.height ≤
      ctx.room ctx.fuel s.depth →
      (∃ (n : Number) (t : Session), eval ctx ctx.fuel e s = .ok n.toValue t) ∨
      ∃ op left right t, eval ctx ctx.fuel e s =
        .error (.error (.divisionByZero op left right)) t := by
  intro h
  have hsink : failure? (eval oneRecord oneRecord.fuel wholeRemainder .start) =
      some (.error .sinkFull) := by
    decide +kernel
  rcases h oneRecord wholeRemainder .start wholeRemainder_calculation (by decide +kernel) with
    ⟨n, t, heval⟩ | ⟨op, left, right, t, heval⟩
  · rw [heval] at hsink
    cases hsink
  · rw [heval] at hsink
    cases hsink

end ListLang
