import ListLang.Proofs.Cells
import ListLang.Proofs.DepthLimit
import ListLang.Proofs.DepthNeutral
import ListLang.Proofs.Flattening

/-! Calculations: expressions that are numbers, or operations on two calculations. What a
calculation gives is a matter of its numbers and operators alone. Evaluating one ends in one of four
ways: with the number that it yields, at an operation that has no result, where the levels run out,
or where a record finds no room. The definitions and bindings stay what they were, and nothing is
looked up in them. -/

namespace ListLang

open Eval

/-! The expressions. -/

/-- A token that stands for an operator at the head of a list. -/
structure Token.Heads (t : Token) (op : Operator) : Prop where
  kind : t.kind.atomKind = .operator
  text : t.text = op.symbol

def Number.toLiteral : Number → Literal
  | int n => .int n
  | float x => .float x

/-- A token that is read as a number. -/
def Token.Reads (t : Token) (n : Number) : Prop := Literal.ofText? t.text = some n.toLiteral

inductive Calculation : Expr → Prop where
  | number {t : Token} {n : Number} : t.Reads n → Calculation (.atom t)
  | operation {p : Position} {t : Token} {op : Operator} {x y : Expr} :
      t.Heads op → Calculation x → Calculation y →
      Calculation (.list p [.atom t, x, y])

namespace Expr

mutual

/-- How many lists stand within one another. -/
def height : Expr → Nat
  | atom _ => 0
  | list _ es => heightAll es + 1

def heightAll : List Expr → Nat
  | [] => 0
  | e :: es => max (height e) (heightAll es)

end

mutual

/-- How many lists there are. -/
def lists : Expr → Nat
  | atom _ => 0
  | list _ es => listsAll es + 1

def listsAll : List Expr → Nat
  | [] => 0
  | e :: es => lists e + listsAll es

end

section Operation

variable (p : Position) (t : Token) (x y : Expr)

theorem height_operation : (list p [atom t, x, y]).height = max x.height y.height + 1 := by
  simp [height, heightAll]

theorem nodes_operation :
    (list p [atom t, x, y]).nodes = list p [atom t, x, y] :: atom t :: (x.nodes ++ y.nodes) := by
  simp [nodes, nodesAll]

theorem lists_operation : (list p [atom t, x, y]).lists = x.lists + y.lists + 1 := by
  simp [lists, listsAll]

end Operation

end Expr

/-! What a calculation gives. -/

/-- All operands have values and all operations have results. -/
inductive Yields : Expr → Number → Prop where
  | number {t : Token} {n : Number} : t.Reads n → Yields (.atom t) n
  | operation {p : Position} {t : Token} {op : Operator} {x y : Expr} {a b c : Number} :
      t.Heads op → Yields x a →
      Yields y b → op.compute? a b = some c → Yields (.list p [.atom t, x, y]) c

section Tokens

variable {t : Token}

theorem operatorOf?_of_heads {op : Operator} (h : t.Heads op) : operatorOf? t = some op := by
  unfold operatorOf?
  rw [if_pos h.kind, h.text]
  cases op <;> rfl

theorem heads_unique {op op' : Operator} (h : t.Heads op) (h' : t.Heads op') : op = op' :=
  Option.some.inj ((operatorOf?_of_heads h).symm.trans (operatorOf?_of_heads h'))

theorem ofLiteral_toLiteral (n : Number) : Value.ofLiteral n.toLiteral = n.toValue := by
  cases n <;> rfl

theorem evalAtom_of_reads {n : Number} (h : t.Reads n) (s : Session) :
    evalAtom t s = .ok n.toValue s := by
  have hliteral : (Expr.atom t).literal = .ok n.toLiteral := by
    rw [Token.Reads] at h
    simp only [Expr.literal, h]
  rw [evalAtom, hliteral, ← ofLiteral_toLiteral]
  rfl

end Tokens

theorem of_ite_eq_none {α : Type} {p : Prop} [Decidable p] {a : α}
    (h : (if p then none else some a) = none) : p := by
  by_contra hp
  rw [if_neg hp] at h
  cases h

/-- Only a division or a remainder has no result, and only where the divisor is zero. -/
theorem compute?_eq_none {op : Operator} {a b : Number} (h : op.compute? a b = none) :
    (op = .div ∨ op = .mod) ∧ b.isZero = true := by
  cases op with
  | add | sub | mul => cases a <;> cases b <;> cases h
  | div =>
    refine ⟨Or.inl rfl, ?_⟩
    cases a <;> cases b <;> exact of_ite_eq_none h
  | mod =>
    refine ⟨Or.inr rfl, ?_⟩
    cases a with
    | float x => cases b <;> exact of_ite_eq_none h
    | int x =>
      cases b with
      | float y => exact of_ite_eq_none h
      | int y => exact decide_eq_true (of_ite_eq_none h)

/-! Room for records. -/

/-- The sink takes `n` more records. -/
def Context.Takes (ctx : Context) (s : Session) (n : Nat) : Prop :=
  ∀ k, ctx.roomLeft s = some k → n ≤ k

/-- One session is what another one is after `n` records. -/
structure Leaves (ctx : Context) (n : Nat) (s t : Session) : Prop where
  env : t.env = s.env
  depth : t.depth = s.depth
  room : ctx.roomLeft t = (ctx.roomLeft s).map (· - n)

section Records

variable {ctx : Context} {s t u : Session} {m n : Nat}

theorem takes_zero : ctx.Takes s 0 := fun _ _ => Nat.zero_le _

theorem takes_mono (hmn : m ≤ n) (h : ctx.Takes s n) : ctx.Takes s m :=
  fun k hk => hmn.trans (h k hk)

theorem canRecord_iff : ctx.canRecord s = true ↔ ctx.Takes s 1 := by
  rw [canRecord_eq_roomLeft]
  unfold Context.Takes
  cases ctx.roomLeft s with
  | none => simp
  | some k => simp [Nat.one_le_iff_ne_zero, Nat.pos_iff_ne_zero]

theorem leaves_refl (s : Session) : Leaves ctx 0 s s := ⟨rfl, rfl, by simp⟩

theorem Leaves.trans (h : Leaves ctx m s t) (h' : Leaves ctx n t u) : Leaves ctx (m + n) s u := by
  refine ⟨h'.env.trans h.env, h'.depth.trans h.depth, ?_⟩
  rw [h'.room, h.room, Option.map_map]
  congr 1
  funext k
  simp [Nat.sub_sub]

theorem leaves_recording (s : Session) (r : TraceRecord) : Leaves ctx 1 s (s.recording ctx r) :=
  ⟨rfl, rfl, roomLeft_recording ctx s r⟩

theorem Leaves.inside (h : Leaves ctx n s.down t) : Leaves ctx n s t.up := by
  refine ⟨h.env, ?_, h.room⟩
  show t.depth - 1 = s.depth
  rw [h.depth]
  rfl

/-- After `m` records that were taken, `n` more are taken if `m + n` were before. -/
theorem Leaves.takes_iff (h : Leaves ctx m s t) (hm : ctx.Takes s m) :
    ctx.Takes t n ↔ ctx.Takes s (m + n) := by
  unfold Context.Takes at hm ⊢
  rw [h.room]
  cases hroom : ctx.roomLeft s with
  | none => simp
  | some k =>
    have hk := hm k hroom
    simp only [Option.map_some, Option.some.injEq, forall_eq']
    omega

end Records

/-! Evaluating an operation. -/

/-- How a list of an operator and two operands can end, once it was entered. -/
inductive OperationEnds (ctx : Context) (fuel : Nat) (op : Operator) (p : Position)
    (t : Token) (x y : Expr) (s : Session) : EStateM.Result Halt Session Value → Prop where
  | left {h : Halt} {u : Session} : eval ctx fuel x s.down = .error h u →
      OperationEnds ctx fuel op p t x y s (.error h u.up)
  | right {a : Value} {h : Halt} {u v : Session} :
      eval ctx fuel x s.down = .ok a u → eval ctx fuel y u = .error h v →
      OperationEnds ctx fuel op p t x y s (.error h v.up)
  | fails {a b : Value} {e : EvalError} {u v : Session} : eval ctx fuel x s.down = .ok a u →
      eval ctx fuel y u = .ok b v → op.apply a b = .error e → OperationEnds ctx fuel op p t x y s
        (.error (.error e) v.up)
  | unrecorded {a b c : Value} {u v : Session} :
      eval ctx fuel x s.down = .ok a u → eval ctx fuel y u = .ok b v →
      op.apply a b = .ok c → ctx.canRecord v = false →
      OperationEnds ctx fuel op p t x y s (.error (.error .sinkFull) v.up)
  | value {a b c : Value} {u v : Session} :
      eval ctx fuel x s.down = .ok a u → eval ctx fuel y u = .ok b v →
      op.apply a b = .ok c → ctx.canRecord v = true →
      OperationEnds ctx fuel op p t x y s
        (.ok c (v.recording ctx (.of (.list p [.atom t, x, y]) c)).up)

theorem eval_operation {ctx : Context} {fuel : Nat} {s : Session} {t : Token} {op : Operator}
    (hhead : t.Heads op) (hb : ctx.barrier? (fuel + 1) s.depth = none) (p : Position) (x y : Expr) :
    OperationEnds ctx fuel op p t x y s (eval ctx (fuel + 1) (.list p [.atom t, x, y]) s) := by
  have hlist : evalList ctx (eval ctx fuel) p [.atom t, x, y] = (do
      let a ← eval ctx fuel x
      let b ← eval ctx fuel y
      ofExcept (op.apply a b)) :=
    evalList_of_operator [x, y] (operatorOf?_of_heads hhead)
  rw [eval_list_inside hb]
  unfold recorded
  rw [hlist]
  cases hx : eval ctx fuel x s.down with
  | error h u =>
    rw [inside_of_error (bind_of_error (bind_of_error hx))]
    exact .left hx
  | ok a u =>
    cases hy : eval ctx fuel y u with
    | error h v =>
      rw [inside_of_error (bind_of_error ((bind_of_ok hx).trans (bind_of_error hy)))]
      exact .right hx hy
    | ok b v =>
      have hoperands := (bind_of_ok (f := fun a => do
        let b ← eval ctx fuel y
        ofExcept (op.apply a b)) hx).trans (bind_of_ok hy)
      cases hop : op.apply a b with
      | error e =>
        rw [hop] at hoperands
        rw [inside_of_error (bind_of_error hoperands)]
        exact .fails hx hy hop
      | ok c =>
        rw [hop] at hoperands
        have hrecord := record_run ctx (.list p [.atom t, x, y]) c v
        cases hroom : ctx.canRecord v with
        | false =>
          rw [hroom] at hrecord
          rw [inside_of_error ((bind_of_ok hoperands).trans (bind_of_error hrecord))]
          exact .unrecorded hx hy hop hroom
        | true =>
          rw [hroom] at hrecord
          rw [inside_of_ok ((bind_of_ok hoperands).trans (bind_of_ok hrecord))]
          exact .value hx hy hop hroom

/-! Evaluating a calculation. -/

/-- At an operation within `e` both operands were evaluated, to `a` and to `b`, for which its
operator has no result. -/
inductive FailsAt (ctx : Context) (e : Expr) (op : Operator) (a b : Number) : Prop where
  | mk {p : Position} {t : Token} {x y : Expr} {fuel : Nat} {u v w : Session} :
      .list p [.atom t, x, y] ∈ e.nodes →
      t.Heads op → Yields x a → Yields y b → eval ctx fuel x u = .ok a.toValue v →
        eval ctx fuel y v = .ok b.toValue w →
      op.compute? a b = none → FailsAt ctx e op a b

/-- How evaluating a calculation ends, when `room` more levels can be entered. -/
inductive CalculationEnds (ctx : Context) (room : Nat) (e : Expr) (s : Session) :
    EStateM.Result Halt Session Value → Prop where
  | value {n : Number} {t : Session} :
      e.height ≤ room → Yields e n → ctx.Takes s e.lists → Leaves ctx e.lists s t →
      CalculationEnds ctx room e s (.ok n.toValue t)
  | zero {op : Operator} {a b : Number} {t : Session} : FailsAt ctx e op a b → t.env = s.env →
      CalculationEnds ctx room e s
        (.error (.error (.divisionByZero op a.toValue.display b.toValue.display)) t)
  | deep {t : Session} :
      room < e.height → t.env = s.env → CalculationEnds ctx room e s (.error ctx.stop t)
  | full {t : Session} : ¬ctx.Takes s e.lists → t.env = s.env →
      CalculationEnds ctx room e s (.error (.error .sinkFull) t)

section Ends

variable {ctx : Context} {room : Nat} {p : Position} {t : Token} {op : Operator} {x y : Expr}
    {s : Session}

theorem FailsAt.mono {e e' : Expr} {a b : Number} (hsub : ∀ f ∈ e.nodes, f ∈ e'.nodes)
    (h : FailsAt ctx e op a b) :
    FailsAt ctx e' op a b := by
  obtain ⟨hmem, hhead, hx, hy, hxu, hyv, hcompute⟩ := h
  exact .mk (hsub _ hmem) hhead hx hy hxu hyv hcompute

theorem mem_nodes_left {e : Expr} (h : e ∈ x.nodes) : e ∈ (Expr.list p [.atom t, x, y]).nodes := by
  rw [Expr.nodes_operation]
  simp [h]

theorem mem_nodes_right {e : Expr} (h : e ∈ y.nodes) : e ∈ (Expr.list p [.atom t, x, y]).nodes := by
  rw [Expr.nodes_operation]
  simp [h]

theorem CalculationEnds.left {h : Halt} {u : Session}
    (hx : CalculationEnds ctx room x s.down (.error h u)) :
    CalculationEnds ctx (room + 1) (.list p [.atom t, x, y]) s (.error h u.up) := by
  have hheight := Expr.height_operation p t x y
  have hlists := Expr.lists_operation p t x y
  cases hx with
  | zero hfails henv => exact .zero (hfails.mono fun _ => mem_nodes_left) henv
  | deep hdeep henv => exact .deep (by omega) henv
  | full hfull henv => exact .full (fun htakes => hfull (takes_mono (by omega) htakes)) henv

theorem CalculationEnds.right {a : Value} {h : Halt} {u v : Session}
    (hx : CalculationEnds ctx room x s.down (.ok a u))
    (hy : CalculationEnds ctx room y u (.error h v)) :
    CalculationEnds ctx (room + 1) (.list p [.atom t, x, y]) s (.error h v.up) := by
  have hheight := Expr.height_operation p t x y
  have hlists := Expr.lists_operation p t x y
  cases hx with
  | value _ _ htaken hleaves =>
    cases hy with
    | zero hfails henv =>
      exact .zero (hfails.mono fun _ => mem_nodes_right) (henv.trans hleaves.env)
    | deep hdeep henv => exact .deep (by omega) (henv.trans hleaves.env)
    | full hfull henv =>
      refine .full (fun htakes => hfull ?_) (henv.trans hleaves.env)
      exact (hleaves.takes_iff htaken).2 (takes_mono (s := s) (by omega) htakes)

/-- Both operands have their numbers. It is left to apply the operator and to write the record. -/
structure Operands (ctx : Context) (room : Nat) (x y : Expr) (s : Session) (m n : Number)
    (v : Session) : Prop where
  height : max x.height y.height ≤ room
  left : Yields x m
  right : Yields y n
  takes : ctx.Takes s.down (x.lists + y.lists)
  leaves : Leaves ctx (x.lists + y.lists) s.down v

theorem operands_of_ends {a b : Value} {u v : Session}
    (hx : CalculationEnds ctx room x s.down (.ok a u))
    (hy : CalculationEnds ctx room y u (.ok b v)) :
    ∃ m n, a = m.toValue ∧ b = n.toValue ∧ Operands ctx room x y s m n v := by
  cases hx with
  | @value m _ hxheight hxyields hxtakes hxleaves =>
    cases hy with
    | @value n _ hyheight hyyields hytakes hyleaves =>
      exact ⟨m, n, rfl, rfl, max_le hxheight hyheight, hxyields, hyyields,
        (hxleaves.takes_iff hxtakes).1 hytakes, hxleaves.trans hyleaves⟩

variable {m n : Number} {v : Session}

theorem Operands.canRecord_iff (h : Operands ctx room x y s m n v) :
    ctx.canRecord v = true ↔ ctx.Takes s (Expr.list p [.atom t, x, y]).lists := by
  rw [ListLang.canRecord_iff, h.leaves.takes_iff h.takes, Expr.lists_operation]
  rfl

theorem Operands.fails {fuel : Nat} {u : Session} {e : EvalError}
    (h : Operands ctx room x y s m n v)
    (hhead : t.Heads op) (hxu : eval ctx fuel x s.down = .ok m.toValue u) (hyv : eval ctx fuel y u =
      .ok n.toValue v)
    (he : op.apply m.toValue n.toValue = .error e) :
    CalculationEnds ctx (room + 1) (.list p [.atom t, x, y]) s (.error (.error e) v.up) := by
  have happly := Cell.apply_toValue m n op
  rw [he] at happly
  cases hcompute : op.compute? m n with
  | none =>
    rw [hcompute] at happly
    cases happly
    have hhere : Expr.list p [.atom t, x, y] ∈ (Expr.list p [.atom t, x, y]).nodes := by
      simp [Expr.nodes_operation]
    exact .zero (.mk hhere hhead h.left h.right hxu hyv hcompute) h.leaves.env
  | some c =>
    rw [hcompute] at happly
    cases happly

theorem Operands.value {c : Value} (h : Operands ctx room x y s m n v) (hhead : t.Heads op)
    (hc : op.apply m.toValue n.toValue = .ok c) (hroom : ctx.canRecord v = true) :
    CalculationEnds ctx (room + 1) (.list p [.atom t, x, y]) s
      (.ok c (v.recording ctx (.of (.list p [.atom t, x, y]) c)).up) := by
  have happly := Cell.apply_toValue m n op
  rw [hc] at happly
  cases hcompute : op.compute? m n with
  | none =>
    rw [hcompute] at happly
    cases happly
  | some z =>
    rw [hcompute] at happly
    cases happly
    have hheight : (Expr.list p [.atom t, x, y]).height ≤ room + 1 := by
      rw [Expr.height_operation]
      exact Nat.succ_le_succ h.height
    refine .value hheight (.operation hhead h.left h.right hcompute) (h.canRecord_iff.1 hroom) ?_
    rw [Expr.lists_operation]
    exact (h.leaves.trans (leaves_recording v _)).inside

end Ends

/-- Evaluating a calculation comes to one of the four ends. -/
theorem eval_calculation {ctx : Context} {e : Expr} (h : Calculation e) (fuel : Nat) (s : Session)
    (hfuel : ctx.limit ≤ fuel + s.depth) : CalculationEnds ctx (ctx.room fuel s.depth) e s
      (eval ctx fuel e s) := by
  -- on the calculation; at an operation, the operands are one level deeper and have one level less
  induction h generalizing fuel s with
  | @number t n hreads =>
    rw [eval_atom, evalAtom_of_reads hreads]
    exact .value (Nat.zero_le _) (.number hreads) takes_zero (leaves_refl s)
  | @operation p t op x y hhead _ _ ihx ihy =>
    have hbarrier := ctx.barrier?_eq hfuel
    by_cases hzero : ctx.room fuel s.depth = 0
    · rw [if_pos hzero] at hbarrier
      rw [eval_list_barrier hbarrier]
      exact .deep (by rw [Expr.height_operation]; omega) rfl
    · rw [if_neg hzero] at hbarrier
      obtain ⟨fuel, rfl⟩ := fuel_of_barrier_none hbarrier
      have hdepth : s.down.depth = s.depth + 1 := rfl
      have hroom : ctx.room (fuel + 1) s.depth = ctx.room fuel s.down.depth + 1 := by
        rw [hdepth, Context.room_succ]
        omega
      have hx := ihx fuel s.down (by omega)
      have hy : ∀ {a u}, eval ctx fuel x s.down = .ok a u →
          CalculationEnds ctx (ctx.room fuel s.down.depth) y u (eval ctx fuel y u) := by
        intro a u hxu
        rw [hxu] at hx
        cases hx with
        | value _ _ _ hleaves =>
          rw [← hleaves.depth]
          exact ihy fuel u (by rw [hleaves.depth]; omega)
      have hends := eval_operation hhead hbarrier p x y
      rw [hroom]
      generalize eval ctx (fuel + 1) (.list p [.atom t, x, y]) s = r at hends ⊢
      cases hends with
      | left hxu => exact (hxu ▸ hx).left
      | right hxu hyv => exact (hxu ▸ hx).right (hyv ▸ hy hxu)
      | fails hxu hyv he =>
        obtain ⟨m, n, rfl, rfl, hoperands⟩ := operands_of_ends (hxu ▸ hx) (hyv ▸ hy hxu)
        exact hoperands.fails hhead hxu hyv he
      | unrecorded hxu hyv _ hfull =>
        obtain ⟨m, n, rfl, rfl, hoperands⟩ := operands_of_ends (hxu ▸ hx) (hyv ▸ hy hxu)
        refine .full ?_ hoperands.leaves.env
        rw [← hoperands.canRecord_iff, hfull]
        exact Bool.false_ne_true
      | value hxu hyv hc hrecord =>
        obtain ⟨m, n, rfl, rfl, hoperands⟩ := operands_of_ends (hxu ▸ hx) (hyv ▸ hy hxu)
        exact hoperands.value hhead hc hrecord

/-! Calculations at no particular place. -/

def Operator.tokenKind : Operator → TokenKind
  | add => .plus
  | sub => .minus
  | mul => .star
  | div => .slash
  | mod => .percent

def Operator.token (op : Operator) : Token := ⟨op.tokenKind, op.symbol, ⟨1, 1⟩⟩

def Operator.of (op : Operator) (x y : Expr) : Expr := .list ⟨1, 1⟩ [.atom op.token, x, y]

def numeral (text : String) : Token := ⟨.numeric, text, ⟨1, 1⟩⟩

theorem heads_token (op : Operator) : op.token.Heads op := by
  cases op <;> exact ⟨rfl, rfl⟩

/-- A context without a tracer, so that no record is refused. -/
def plainUpTo (limit : Nat) : Context := { Context.plain "run" "0x1" with limit := limit }

theorem plainUpTo_takes (limit n : Nat) (s : Session) : (plainUpTo limit).Takes s n := by
  intro k hk
  cases hk

end ListLang
