import ListLang.Proofs.CellEvaluation
import ListLang.Proofs.Flattening
import ListLang.Proofs.Observation
import ListLang.Proofs.Plan
import ListLang.Proofs.Related
import ListLang.Proofs.Termination

/-! How a run can fail. With a limit, the builtins of every run and a trace that can be written, a
run gives a value for each expression, or it fails in one of ten ways that the language provides
for. Carried out on cells it does the same: no content is taken for what it is not, nothing is cut
or indexed beyond its end, and no remainder by the integer zero is taken. -/

namespace ListLang

open Eval

inductive EvalErrorKind where
  | value
  | divisionByZero
  | unbound
  | arity
  | notCallable
  | tooDeep
  /-- What the language has no name for: a sink or a builtin with reasons of its own. -/
  | foreign
  deriving DecidableEq

def EvalError.kind : EvalError → EvalErrorKind
  | .invalidLiteral _ | .unsupported _ _ | .notNumber _ | .nameNotAtom _ | .templateNotText _ =>
    .value
  | .divisionByZero _ _ _ => .divisionByZero
  | .unbound _ => .unbound
  | .operandCount _ _ | .incompleteDefinition | .missingTemplate => .arity
  | .notCallable _ => .notCallable
  | .tooDeep _ => .tooDeep
  | .sinkFull | .builtin _ => .foreign

/-! What a list can fail with by itself. -/

section Conclude

variable {s : Session} {vs : List Value} {e : EvalError}

theorem apply_kind {op : Operator} {a b : Value} (h : op.apply a b = .error e) :
    e.kind ≠ .foreign := by
  unfold Operator.apply at h
  cases ha : a.number? with
  | none =>
    rw [ha] at h
    cases h
    simp [EvalError.kind]
  | some x =>
    cases hb : b.number? with
    | none =>
      rw [ha, hb] at h
      cases h
      simp [EvalError.kind]
    | some y =>
      rw [ha, hb] at h
      cases hz : op.compute? x y with
      | none =>
        simp only [hz] at h
        cases h
        simp [EvalError.kind]
      | some z =>
        simp only [hz] at h
        cases h

theorem settled_kind {e' : EvalError} (hkind : e'.kind ≠ .foreign)
    (h : (Plan.settled s (.error e')).conclude vs = .error e) : e.kind ≠ .foreign := by
  cases h
  exact hkind

theorem arithmetic_kind {op : Operator} {args : List Expr}
    (h : (Plan.arithmetic op s args).conclude vs = .error e) :
    e.kind ≠ .foreign := by
  rcases args with _ | ⟨x, _ | ⟨y, _ | ⟨z, args⟩⟩⟩
  · exact settled_kind (by simp [EvalError.kind]) h
  · exact settled_kind (by simp [EvalError.kind]) h
  · rcases vs with _ | ⟨a, _ | ⟨b, _ | ⟨c, vs⟩⟩⟩
    · cases h
      simp [EvalError.kind]
    · cases h
      simp [EvalError.kind]
    · exact apply_kind h
    · cases h
      simp [EvalError.kind]
  · exact settled_kind (by simp [EvalError.kind]) h

theorem definition_kind {ctx : Context} {args : List Expr}
    (h : (Plan.definition ctx s args).conclude vs = .error e) : e.kind ≠ .foreign := by
  rcases args with _ | ⟨name | ⟨p, es⟩, _ | ⟨param, body⟩⟩
  · exact settled_kind (by simp [EvalError.kind]) h
  · exact settled_kind (by simp [EvalError.kind]) h
  · cases h
  · exact settled_kind (by simp [EvalError.kind]) h
  · exact settled_kind (by simp [EvalError.kind]) h

theorem format_kind {ctx : Context} {args : List Expr}
    (h : (Plan.builtin ctx s args .format).conclude vs = .error e) : e.kind ≠ .foreign := by
  rcases vs with _ | ⟨v, vs⟩
  · cases h
    simp [EvalError.kind]
  · cases v with
    | text => cases h
    | nil | int | float | list | function =>
      cases h
      simp [EvalError.kind]

variable {ctx : Context} (hctx : ctx.builtins = Builtin.defaults)
include hctx

theorem call_kind {name : String} {args : List Expr}
    (h : (Plan.call ctx s name args).conclude vs = .error e) :
    e.kind ≠ .foreign := by
  unfold Plan.call at h
  cases hl : s.env.lookup? name with
  | some v =>
    rw [hl] at h
    cases h
  | none =>
    cases hf : s.env.function? name with
    | some f =>
      rw [hl, hf] at h
      cases h
    | none =>
      cases hb : ctx.builtin? name with
      | some b =>
        obtain rfl := builtin?_of_defaults hctx hb
        rw [hl, hf, hb] at h
        exact format_kind h
      | none =>
        rw [hl, hf, hb] at h
        exact settled_kind (by simp [EvalError.kind]) h

theorem plan_kind {p : Position} {items : List Expr}
    (h : (ctx.plan s p items).conclude vs = .error e) :
    e.kind ≠ .foreign := by
  rcases items with _ | ⟨t | ⟨p, es⟩, args⟩
  · cases h
  · unfold Context.plan at h
    cases hop : operatorOf? t with
    | some op =>
      simp only [hop] at h
      exact arithmetic_kind h
    | none =>
      simp only [hop] at h
      by_cases hquote : isQuote t.text = true
      · rw [if_pos hquote] at h
        cases h
      by_cases hdef : t.text = "def"
      · rw [if_neg hquote, if_pos hdef] at h
        exact definition_kind h
      · rw [if_neg hquote, if_neg hdef] at h
        exact call_kind hctx h
  · exact settled_kind (by simp [EvalError.kind]) h

end Conclude

/-! What an evaluation can fail with. -/

theorem evalAtom_kind {t : Token} {s : Session} {e : EvalError}
    (h : failure? (evalAtom t s) = some (.error e)) :
    e.kind ≠ .foreign := by
  unfold evalAtom at h
  cases hl : (Expr.atom t).literal with
  | ok l =>
    rw [hl] at h
    cases h
  | error cause =>
    rw [hl] at h
    cases h
    simp [EvalError.kind]

theorem barrier?_kind {ctx : Context} {fuel depth : Nat} {e : EvalError}
    (h : ctx.barrier? fuel depth = some (.error e)) : e.kind ≠ .foreign := by
  unfold Context.barrier? at h
  split at h
  · cases h
    simp [EvalError.kind]
  · split at h <;> cases h

section Failures

variable {ctx : Context} (hctx : ctx.builtins = Builtin.defaults) (hreliable : Reliable ctx.tracer)
include hctx hreliable

theorem list_kind {fuel : Nat} (ih : ∀ {e s err}, failure? (eval ctx fuel e s) = some (.error err) →
    err.kind ≠ .foreign)
    {s : Session} {p : Position} {items : List Expr} {r : EStateM.Result Halt Session Value}
      {err : EvalError}
    (hends : ListEnds ctx fuel p items (ctx.plan s p items) r) (h : failure? r =
      some (.error err)) :
    err.kind ≠ .foreign := by
  cases hends with
  | value _ _ _ => cases h
  | part hparts =>
    obtain ⟨e, -, t, hfails⟩ := evalEach_failure (by rw [hparts]; exact h)
    exact ih hfails
  | form _ hconclude =>
    cases h
    exact plan_kind hctx hconclude
  | @unrecorded _ _ t _ _ hfull =>
    have hroom : ctx.canRecord t = true := canRecord_of_reliable ctx ctx.journaling hreliable t
    rw [hfull] at hroom
    cases hroom

theorem eval_kind (fuel : Nat) {e : Expr} {s : Session} {err : EvalError}
    (h : failure? (eval ctx fuel e s) = some (.error err)) : err.kind ≠ .foreign := by
  induction fuel using Nat.strong_induction_on generalizing e s err with
  | _ fuel ih =>
    cases e with
    | atom t =>
      rw [eval_atom] at h
      exact evalAtom_kind h
    | list p items =>
      cases hb : ctx.barrier? fuel s.depth with
      | some stop =>
        rw [eval_list_barrier hb] at h
        cases h
        exact barrier?_kind hb
      | none =>
        obtain ⟨n, rfl⟩ := fuel_of_barrier_none hb
        exact list_kind hctx hreliable (ih n n.lt_succ_self) (eval_list_ends hb p items) h

/-- A run that was read gives a value for each expression, or fails with an error that has a
kind. -/
theorem evalAll_ends (hlimit : 0 < ctx.limit) (es : List Expr) (s : Session) :
    (∃ vs, answer (evalAll ctx es s) = .ok vs ∧ vs.length = es.length) ∨
      ∃ e, answer (evalAll ctx es s) = .error (.error e) ∧ e.kind ≠ .foreign := by
  cases hr : evalAll ctx es s with
  | ok vs t => exact Or.inl ⟨vs, rfl, evalEach_length hr⟩
  | error stop t =>
    obtain ⟨e, -, u, hfails⟩ := evalEach_failure (h := stop) (s := s) (by rw [← evalAll, hr]; rfl)
    cases stop with
    | exhausted => exact absurd hfails (eval_ne_exhausted hlimit e u)
    | error err => exact Or.inr ⟨err, rfl, eval_kind hctx hreliable ctx.fuel hfails⟩

end Failures

theorem mem_of_ne_foreign {k : EvalErrorKind} (h : k ≠ .foreign) :
    k ∈ [EvalErrorKind.value, .divisionByZero, .unbound, .arity, .notCallable, .tooDeep] := by
  cases k with
  | foreign => exact absurd rfl h
  | _ => simp

/-- What a run with cells must not come to, and what it has to leave. -/
structure CellOutcome.Sound (o : CellOutcome) : Prop where
  fault : ∀ f, o.result ≠ .error (.stop (.fault f))
  result : ∀ cells, o.result = .ok cells → ∀ c ∈ cells, c.Fits
  bindings : ∀ b ∈ o.session.bindings, ∀ c, b.value = some c → c.Fits

theorem CellOutcome.sound_of (o : Outcome) : (of o).Sound where
  fault f h := by
    obtain ⟨result, s⟩ := o
    rcases result with (e | stop) | vs <;> cases h
  result cells h c hc := by
    obtain ⟨result, s⟩ := o
    rcases result with (e | stop) | vs
    · cases h
    · cases h
    · cases h
      obtain ⟨v, -, rfl⟩ := List.mem_map.1 hc
      exact Cell.ofValue_fits v
  bindings b hb c hc := by
    obtain ⟨b, -, rfl⟩ := Array.mem_map.1 hb
    obtain ⟨v, -, rfl⟩ := Option.map_eq_some_iff.1 hc
    exact Cell.ofValue_fits v

/-- From every source, in any session, a run has one value for each expression, or one of four
errors of reading or six of evaluation. With cells it takes the same course and comes to no fault,
and all cells that it gives or leaves in the environment fit. -/
theorem failures_are_documented {ctx : Context} (hlimit : 0 < ctx.limit)
    (hbuiltins : ctx.builtins = Builtin.defaults)
    (hreliable : Reliable ctx.tracer) (s : Session) (bytes : List UInt8) :
    ((∃ es vs, read (Text.decode bytes) = .ok es ∧ (runIn ctx s (Text.decode bytes)).result =
      .ok vs ∧
        vs.length = es.length) ∨
      (∃ e, (runIn ctx s (Text.decode bytes)).result = .error (.read e) ∧
        e.kind ∈ [ReadErrorKind.invalidContent, .unterminatedText, .unclosedList, .strayClose]) ∨
      ∃ e, (runIn ctx s (Text.decode bytes)).result = .error (.halt (.error e)) ∧
        e.kind ∈ [EvalErrorKind.value, .divisionByZero, .unbound, .arity, .notCallable, .tooDeep]) ∧
    CellEval.runIn ctx (.of s) (Text.decode bytes) = .of (runIn ctx s (Text.decode bytes)) ∧
    (CellEval.runIn ctx (.of s) (Text.decode bytes)).Sound := by
  refine ⟨?_, runIn_of hbuiltins s _, ?_⟩
  · cases hread : read (Text.decode bytes) with
    | error e =>
      rw [runIn_of_unread hread]
      exact Or.inr (Or.inl ⟨e, rfl, read_error_kind hread⟩)
    | ok es =>
      rw [runIn_of_read hread, result_ofResult]
      rcases evalAll_ends hbuiltins hreliable hlimit es s with ⟨vs, hvs, hlength⟩ | ⟨e, he, hkind⟩
      · exact Or.inl ⟨es, vs, rfl, by rw [hvs]; rfl, hlength⟩
      · exact Or.inr (Or.inr ⟨e, by rw [he]; rfl, mem_of_ne_foreign hkind⟩)
  · rw [runIn_of hbuiltins]
    exact CellOutcome.sound_of _

/-- A string literal, a quotation, a definition, a filled template and remainders, the last one by
zero. -/
def everyAccess : List UInt8 :=
  "(def f x (% -7 3)) (format \"\x7b\x7d, \x7b\x7d\" (f) (quote y) 1.5) (x) (% 1 (- 2 2))".toUTF8.toList

/-- A traced run of these. -/
def everyAccessIn : Context := { Context.plain "run" "0x1" with tracer := some ⟨.yaml, none⟩ }

/-- The kind of the error that an evaluation ended with, if it did. -/
def Outcome.kind? (o : Outcome) : Option EvalErrorKind :=
  match o.result with
  | .error (.halt (.error e)) => some e.kind
  | _ => none

theorem failures_are_documented_everyAccess :
    0 < everyAccessIn.limit ∧ everyAccessIn.builtins = Builtin.defaults ∧
      Reliable everyAccessIn.tracer ∧
    (run everyAccessIn (Text.decode everyAccess)).kind? = some .divisionByZero ∧
    (∃ e, (run everyAccessIn (Text.decode everyAccess)).result = .error (.halt (.error e)) ∧
      e.kind ∈ [EvalErrorKind.value, .divisionByZero, .unbound, .arity, .notCallable, .tooDeep]) ∧
    CellEval.runIn everyAccessIn (.of .start) (Text.decode everyAccess) =
      .of (run everyAccessIn (Text.decode everyAccess)) ∧
    (CellEval.runIn everyAccessIn (.of .start) (Text.decode everyAccess)).Sound := by
  have hlimit : 0 < everyAccessIn.limit := by decide
  have hreliable : Reliable everyAccessIn.tracer := by
    intro t ht
    cases ht
    rfl
  have hkind : (run everyAccessIn (Text.decode everyAccess)).kind? = some .divisionByZero := by
    decide +kernel
  obtain ⟨hends, hcells, hsound⟩ := failures_are_documented hlimit rfl hreliable .start everyAccess
  refine ⟨hlimit, rfl, hreliable, hkind, ?_, hcells, hsound⟩
  rcases hends with ⟨es, vs, -, hvs, -⟩ | ⟨e, he, -⟩ | hfails
  · rw [Outcome.kind?, run, hvs] at hkind
    cases hkind
  · rw [Outcome.kind?, run, he] at hkind
    cases hkind
  · exact hfails

end ListLang
