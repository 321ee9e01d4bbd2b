import ListLang.Proofs.Plan

/-! The trace follows the evaluation. Evaluating an expression makes a segment of records: none for
an atom, and for a list the segments of the expressions that it evaluates, in order, with its own
record after them. What fails has no record of its own. -/

namespace ListLang

open Eval

/-! Evaluation with its records, as rules. -/

mutual

/-- Evaluating an expression in one session gives a value, leaves another session, and makes a
segment. -/
inductive Evaluates (ctx : Context) :
    Session → Expr → Value → Session → List TraceRecord → Prop where
  | atom {s : Session} {t : Token} {l : Literal} : (Expr.atom t).literal = .ok l →
      Evaluates ctx s (.atom t) (.ofLiteral l) s []
  | list {s t : Session} {p : Position} {items : List Expr} {values : List Value} {v : Value}
      {inner : List (List TraceRecord)} :
      EvaluatesAll ctx (ctx.plan s.down p items).session
        (ctx.plan s.down p items).parts values t inner →
      (ctx.plan s.down p items).conclude values = .ok v → ctx.canRecord t = true →
      Evaluates ctx s (.list p items) v (t.recording ctx (.of (.list p items) v)).up
        (inner.flatten ++ [.of (.list p items) v])

inductive EvaluatesAll (ctx : Context) :
    Session → List Expr → List Value → Session → List (List TraceRecord) → Prop where
  | nil {s : Session} : EvaluatesAll ctx s [] [] s []
  | cons {s t u : Session} {e : Expr} {es : List Expr} {v : Value} {values : List Value}
      {segment : List TraceRecord} {segments : List (List TraceRecord)} :
      Evaluates ctx s e v t segment → EvaluatesAll ctx t es values u segments →
      EvaluatesAll ctx s (e :: es) (v :: values) u (segment :: segments)

end

mutual

/-- Evaluating an expression in one session fails, leaves another session, and has made records. -/
inductive Fails (ctx : Context) : Session → Expr → Halt → Session → List TraceRecord → Prop where
  | atom {s : Session} {t : Token} {cause : LiteralError} : (Expr.atom t).literal = .error cause →
      Fails ctx s (.atom t) (.error (.invalidLiteral cause)) s []
  | barred {s : Session} {p : Position} {items : List Expr} {fuel : Nat} {h : Halt} :
      ctx.barrier? fuel s.depth = some h → Fails ctx s (.list p items) h s []
  | part {s t : Session} {p : Position} {items : List Expr} {h : Halt}
      {inner : List (List TraceRecord)} :
      FailsAmong ctx (ctx.plan s.down p items).session (ctx.plan s.down p items).parts h t inner →
      Fails ctx s (.list p items) h t.up inner.flatten
  /-- Their values make no value of the list. -/
  | form {s t : Session} {p : Position} {items : List Expr} {values : List Value} {e : EvalError}
      {inner : List (List TraceRecord)} :
      EvaluatesAll ctx (ctx.plan s.down p items).session
        (ctx.plan s.down p items).parts values t inner →
      (ctx.plan s.down p items).conclude values = .error e →
      Fails ctx s (.list p items) (.error e) t.up inner.flatten
  | unrecorded {s t : Session} {p : Position} {items : List Expr} {values : List Value} {v : Value}
      {inner : List (List TraceRecord)} :
      EvaluatesAll ctx (ctx.plan s.down p items).session
        (ctx.plan s.down p items).parts values t inner →
      (ctx.plan s.down p items).conclude values = .ok v → ctx.canRecord t = false →
      Fails ctx s (.list p items) (.error .sinkFull) t.up inner.flatten

/-- Of expressions in order, the first ones are evaluated and one fails. No segment follows that of
the failure. -/
inductive FailsAmong (ctx : Context) :
    Session → List Expr → Halt → Session → List (List TraceRecord) → Prop where
  | here {s t : Session} {e : Expr} {es : List Expr} {h : Halt} {segment : List TraceRecord} :
      Fails ctx s e h t segment → FailsAmong ctx s (e :: es) h t [segment]
  | later {s t u : Session} {e : Expr} {es : List Expr} {v : Value} {h : Halt}
      {segment : List TraceRecord}
      {segments : List (List TraceRecord)} :
      Evaluates ctx s e v t segment → FailsAmong ctx t es h u segments →
      FailsAmong ctx s (e :: es) h u (segment :: segments)

end

def Context.kept (ctx : Context) (records : List TraceRecord) : List TraceRecord :=
  if ctx.tracer.isSome then records else []

theorem kept_append (ctx : Context) (rs rs' : List TraceRecord) :
    ctx.kept (rs ++ rs') = ctx.kept rs ++ ctx.kept rs' := by
  unfold Context.kept
  split <;> simp

theorem recording_trace (ctx : Context) (s : Session) (r : TraceRecord) :
    (s.recording ctx r).trace.toList = s.trace.toList ++ ctx.kept [r] := by
  unfold Session.recording Context.kept
  split <;> simp

/-- A run of an expression with its segment, which is what the trace has grown by. -/
inductive Accounted (ctx : Context) (e : Expr) (s : Session) :
    EStateM.Result Halt Session Value → Prop where
  | value {v : Value} {t : Session} {segment : List TraceRecord} : Evaluates ctx s e v t segment →
      t.trace.toList = s.trace.toList ++ ctx.kept segment → Accounted ctx e s (.ok v t)
  | error {h : Halt} {t : Session} {segment : List TraceRecord} : Fails ctx s e h t segment →
      t.trace.toList = s.trace.toList ++ ctx.kept segment → Accounted ctx e s (.error h t)

inductive AccountedAll (ctx : Context) (es : List Expr) (s : Session) :
    EStateM.Result Halt Session (List Value) → Prop where
  | values {vs : List Value} {t : Session} {segments : List (List TraceRecord)} :
      EvaluatesAll ctx s es vs t segments → t.trace.toList =
        s.trace.toList ++ ctx.kept segments.flatten →
      AccountedAll ctx es s (.ok vs t)
  | error {h : Halt} {t : Session} {segments : List (List TraceRecord)} :
      FailsAmong ctx s es h t segments → t.trace.toList =
        s.trace.toList ++ ctx.kept segments.flatten →
      AccountedAll ctx es s (.error h t)

section Account

variable {ctx : Context}

theorem evalAtom_accounted (t : Token) (s : Session) :
    Accounted ctx (.atom t) s (evalAtom t s) := by
  have hnone : s.trace.toList = s.trace.toList ++ ctx.kept [] := by simp [Context.kept]
  unfold evalAtom
  cases hl : (Expr.atom t).literal with
  | ok l => exact .value (.atom hl) hnone
  | error cause => exact .error (.atom hl) hnone

theorem evalEach_accounted {ev : Expr → Eval Value} (hev : ∀ e s, Accounted ctx e s (ev e s))
    (es : List Expr) (s : Session) : AccountedAll ctx es s (evalEach ev es s) := by
  induction es generalizing s with
  | nil => exact .values .nil (by simp [Context.kept])
  | cons e es ih =>
    have he := hev e s
    have hends := evalEach_ends ev e es s
    generalize evalEach ev (e :: es) s = r at hends ⊢
    cases hends with
    | @values v vs t u hfirst hrest =>
      have hall := ih t
      rw [hfirst] at he
      rw [hrest] at hall
      cases he with
      | value hvalue htrace =>
        cases hall with
        | values hvalues htrace' =>
          refine .values (.cons hvalue hvalues) ?_
          rw [htrace', htrace, List.flatten_cons, kept_append, List.append_assoc]
    | first hfirst =>
      rw [hfirst] at he
      cases he with
      | error hfails htrace => exact .error (.here hfails) (by simpa using htrace)
    | @rest v h t u hfirst hrest =>
      have hall := ih t
      rw [hfirst] at he
      rw [hrest] at hall
      cases he with
      | value hvalue htrace =>
        cases hall with
        | error hfails htrace' =>
          refine .error (.later hvalue hfails) ?_
          rw [htrace', htrace, List.flatten_cons, kept_append, List.append_assoc]

theorem list_accounted {fuel : Nat} (ih : ∀ e s, Accounted ctx e s (eval ctx fuel e s))
    {p : Position} {items : List Expr} {s : Session} {r : EStateM.Result Halt Session Value}
    (h : ListEnds ctx fuel p items (ctx.plan s.down p items) r) :
      Accounted ctx (.list p items) s r := by
  have hstart : (ctx.plan s.down p items).session.trace = s.trace :=
    (plan_made ctx s.down p items).trace
  have hparts :=
    evalEach_accounted ih (ctx.plan s.down p items).parts (ctx.plan s.down p items).session
  cases h with
  | value hvalues hv hroom =>
    rw [hvalues] at hparts
    cases hparts with
    | values hall htrace =>
      refine .value (.list hall hv hroom) ?_
      rw [Session.up, recording_trace, htrace, kept_append, List.append_assoc, hstart]
  | part hfails =>
    rw [hfails] at hparts
    cases hparts with
    | error hamong htrace => exact .error (.part hamong) (hstart ▸ htrace)
  | form hvalues he =>
    rw [hvalues] at hparts
    cases hparts with
    | values hall htrace => exact .error (.form hall he) (hstart ▸ htrace)
  | unrecorded hvalues hv hroom =>
    rw [hvalues] at hparts
    cases hparts with
    | values hall htrace => exact .error (.unrecorded hall hv hroom) (hstart ▸ htrace)

theorem eval_accounted :
    ∀ (fuel : Nat) (e : Expr) (s : Session), Accounted ctx e s (eval ctx fuel e s)
  | fuel, .atom t, s => by
    rw [eval_atom]
    exact evalAtom_accounted t s
  | fuel, .list p items, s => by
    cases hb : ctx.barrier? fuel s.depth with
    | some h =>
      rw [eval_list_barrier hb]
      exact .error (.barred hb) (by simp [Context.kept])
    | none =>
      obtain ⟨n, rfl⟩ := fuel_of_barrier_none hb
      exact list_accounted (eval_accounted n) (eval_list_ends hb p items)

end Account

theorem evalAll_accounted (ctx : Context) (es : List Expr) (s : Session) :
    AccountedAll ctx es s (evalAll ctx es s) :=
  evalEach_accounted (eval_accounted ctx.fuel) es s

end ListLang
