import ListLang.Proofs.Growth

/-! Every list is evaluated in the same three steps. A definition or a call is entered into the
session; some expressions are evaluated in order; their values are made into the value of the list.
Which expressions these are, and what is made of their values, is settled when the list is
entered. -/

namespace ListLang

open Eval

structure Plan where
  /-- The session that the first of the parts starts in. -/
  session : Session
  parts : List Expr
  conclude : List Value → Except EvalError Value

namespace Plan

def settled (s : Session) (r : Except EvalError Value) : Plan := ⟨s, [], fun _ => r⟩

/-- Both operands are evaluated, if there are two. -/
def arithmetic (op : Operator) (s : Session) : List Expr → Plan
  | [x, y] => ⟨s, [x, y], fun
    | [a, b] => op.apply a b
    | values => .error (.operandCount op values.length)⟩
  | args => settled s (.error (.operandCount op args.length))

def definition (ctx : Context) (s : Session) : List Expr → Plan
  | .atom name :: param :: body =>
    let f : Function := ⟨name.text, some param, body⟩
    settled (Session.noting { s with env := s.env.define f } ctx .define f) (.ok (.function f))
  | .list p es :: _ :: _ => settled s (.error (.nameNotAtom (Expr.list p es).encode))
  | _ => settled s (.error .incompleteDefinition)

/-- The body of the function is evaluated, and its last value counts. -/
def function (ctx : Context) (s : Session) (f : Function) : Plan where
  session := Session.noting { s with env := s.env.bind f.param none } ctx .call f
  parts := f.body
  conclude values := .ok (values.getLast?.getD .nil)

/-- All arguments are evaluated, or none. -/
def builtin (ctx : Context) (s : Session) (args : List Expr) : Builtin → Plan
  | .eager apply => ⟨s, args, apply⟩
  | .lazy apply => settled s (apply (ctx.site s) args)

def call (ctx : Context) (s : Session) (name : String) (args : List Expr) : Plan :=
  match s.env.lookup? name with
  | some v => settled s (.ok v)
  | none =>
    match s.env.function? name with
    | some f => function ctx s f
    | none =>
      match ctx.builtin? name with
      | some b => builtin ctx s args b
      | none => settled s (.error (.unbound name))

def follow (ev : Expr → Eval Value) (plan : Plan) : EStateM.Result Halt Session Value :=
  (do let values ← evalEach ev plan.parts; ofExcept (plan.conclude values)) plan.session

end Plan

/-- The plan for a list that was entered. -/
def Context.plan (ctx : Context) (s : Session) (opening : Position) : List Expr → Plan
  | [] => .settled s (.ok .nil)
  | .list p es :: _ => .settled s (.error (.notCallable (Expr.list p es).encode))
  | .atom t :: args =>
    match operatorOf? t with
    | some op => .arithmetic op s args
    | none =>
      if isQuote t.text then .settled s (.ok (.list (.list opening (.atom t :: args))))
      else if t.text = "def" then .definition ctx s args
      else .call ctx s t.text args

section Follow

variable {ctx : Context} {ev : Expr → Eval Value} {s : Session}

theorem evalBody_eq_evalEach (last : Value) (es : List Expr) :
    evalBody ev last es = (do let values ← evalEach ev es; pure (values.getLast?.getD last)) := by
  induction es generalizing last with
  | nil => simp [evalBody, evalEach]
  | cons e es ih =>
    have hlast : ∀ (v : Value) vs, (v :: vs).getLast?.getD last = vs.getLast?.getD v := by
      intro v vs
      rw [List.getLast?_cons, Option.getD_some]
    simp only [evalBody, evalEach, ih, bind_assoc, pure_bind, hlast]

theorem evalArithmetic_eq_plan (op : Operator) (args : List Expr) :
    evalArithmetic ev op args s = (Plan.arithmetic op s args).follow ev := by
  rcases args with _ | ⟨x, _ | ⟨y, _ | ⟨z, args⟩⟩⟩
  · rfl
  · rfl
  · simp only [evalArithmetic, Plan.arithmetic, Plan.follow, evalEach, bind_assoc, pure_bind]
  · rfl

theorem evalDefinition_eq_plan (args : List Expr) :
    evalDefinition ctx args s = (Plan.definition ctx s args).follow ev := by
  rcases args with _ | ⟨name, _ | ⟨param, body⟩⟩
  · rfl
  · cases name <;> rfl
  · cases name with
    | atom name =>
      rw [evalDefinition_atom, bind_of_ok (addFunction_run ctx _ s)]
      rfl
    | list p es => rfl

theorem evalCall_eq_plan (name : String) (args : List Expr) :
    evalCall ctx ev name args s = (Plan.call ctx s name args).follow ev := by
  unfold Plan.call
  cases hl : s.env.lookup? name with
  | some v => exact evalCall_of_lookup hl
  | none =>
    cases hf : s.env.function? name with
    | some f =>
      rw [evalCall_of_function hl hf, evalFunction_eq, bind_of_ok (addCall_run ctx f s),
        evalBody_eq_evalEach]
      rfl
    | none =>
      cases hb : ctx.builtin? name with
      | some b =>
        rw [evalCall_of_builtin hl hf hb]
        cases b <;> rfl
      | none => exact evalCall_of_unbound hl hf hb

theorem evalList_eq_plan (opening : Position) (items : List Expr) :
    evalList ctx ev opening items s = (ctx.plan s opening items).follow ev := by
  cases items with
  | nil => rfl
  | cons head args =>
    cases head with
    | list p es => rfl
    | atom t =>
      cases hop : operatorOf? t with
      | some op =>
        rw [evalList_of_operator args hop, evalArithmetic_eq_plan]
        simp only [Context.plan, hop]
      | none =>
        by_cases hquote : isQuote t.text = true
        · rw [evalList_of_quote args hop hquote]
          simp only [Context.plan, hop, if_pos hquote]
          rfl
        by_cases hdef : t.text = "def"
        · rw [evalList_of_definition args hop hquote hdef]
          simp only [Context.plan, hop, if_neg hquote, if_pos hdef]
          exact evalDefinition_eq_plan args
        · rw [evalList_of_call args hop hquote hdef, evalCall_eq_plan]
          simp only [Context.plan, hop, if_neg hquote, if_neg hdef]

end Follow

/-- How the evaluation of expressions in order can end, when there is a first one. -/
inductive EachEnds (ev : Expr → Eval Value) (e : Expr) (es : List Expr) (s : Session) :
    EStateM.Result Halt Session (List Value) → Prop where
  | values {v : Value} {vs : List Value} {t u : Session} :
      ev e s = .ok v t → evalEach ev es t = .ok vs u →
      EachEnds ev e es s (.ok (v :: vs) u)
  | first {h : Halt} {t : Session} : ev e s = .error h t → EachEnds ev e es s (.error h t)
  | rest {v : Value} {h : Halt} {t u : Session} : ev e s = .ok v t → evalEach ev es t = .error h u →
      EachEnds ev e es s (.error h u)

theorem evalEach_ends (ev : Expr → Eval Value) (e : Expr) (es : List Expr) (s : Session) :
    EachEnds ev e es s (evalEach ev (e :: es) s) := by
  rw [evalEach]
  cases hfirst : ev e s with
  | error h t =>
    rw [bind_of_error hfirst]
    exact .first hfirst
  | ok v t =>
    rw [bind_of_ok hfirst]
    cases hrest : evalEach ev es t with
    | error h u =>
      rw [bind_of_error hrest]
      exact .rest hfirst hrest
    | ok vs u =>
      rw [bind_of_ok hrest]
      exact .values hfirst hrest

theorem evalEach_failure {ev : Expr → Eval Value} {es : List Expr} {s : Session} {h : Halt}
    (hfails : failure? (evalEach ev es s) = some h) : ∃ e ∈ es, ∃ t,
      failure? (ev e t) = some h := by
  induction es generalizing s with
  | nil => cases hfails
  | cons e es ih =>
    have hends := evalEach_ends ev e es s
    generalize evalEach ev (e :: es) s = r at hends hfails
    cases hends with
    | values _ _ => cases hfails
    | first hfirst => exact ⟨e, List.mem_cons_self, s, by rw [hfirst]; exact hfails⟩
    | rest _ hrest =>
      obtain ⟨e', he', t, ht⟩ := ih (by rw [hrest]; exact hfails)
      exact ⟨e', List.mem_cons_of_mem _ he', t, ht⟩

theorem evalEach_length {ev : Expr → Eval Value} {es : List Expr} {s t : Session} {vs : List Value}
    (h : evalEach ev es s = .ok vs t) : vs.length = es.length := by
  induction es generalizing s vs with
  | nil =>
    cases h
    rfl
  | cons e es ih =>
    have hends := evalEach_ends ev e es s
    rw [h] at hends
    cases hends with
    | values _ hrest => rw [List.length_cons, List.length_cons, ih hrest]

/-- How a list that was entered can end, when the expressions within are followed `fuel` levels
deep. -/
inductive ListEnds (ctx : Context) (fuel : Nat) (opening : Position) (items : List Expr)
    (plan : Plan) :
    EStateM.Result Halt Session Value → Prop where
  | value {values : List Value} {v : Value} {t : Session} :
      evalEach (eval ctx fuel) plan.parts plan.session = .ok values t →
        plan.conclude values = .ok v →
      ctx.canRecord t = true → ListEnds ctx fuel opening items plan
        (.ok v (t.recording ctx (.of (.list opening items) v)).up)
  | part {h : Halt} {t : Session} : evalEach (eval ctx fuel) plan.parts plan.session = .error h t →
      ListEnds ctx fuel opening items plan (.error h t.up)
  | form {values : List Value} {e : EvalError} {t : Session} :
      evalEach (eval ctx fuel) plan.parts plan.session = .ok values t →
        plan.conclude values = .error e →
      ListEnds ctx fuel opening items plan (.error (.error e) t.up)
  | unrecorded {values : List Value} {v : Value} {t : Session} :
      evalEach (eval ctx fuel) plan.parts plan.session = .ok values t →
        plan.conclude values = .ok v →
      ctx.canRecord t = false → ListEnds ctx fuel opening items plan
        (.error (.error .sinkFull) t.up)

theorem eval_list_ends {ctx : Context} {fuel : Nat} {s : Session}
    (hb : ctx.barrier? (fuel + 1) s.depth = none) (opening : Position) (items : List Expr) :
    ListEnds ctx fuel opening items (ctx.plan s.down opening items)
      (eval ctx (fuel + 1) (.list opening items) s) := by
  have hlist : evalList ctx (eval ctx fuel) opening items s.down = _ :=
    evalList_eq_plan opening items
  rw [eval_list_inside hb]
  generalize ctx.plan s.down opening items = plan at hlist ⊢
  rw [Plan.follow] at hlist
  cases hparts : evalEach (eval ctx fuel) plan.parts plan.session with
  | error h t =>
    rw [bind_of_error hparts] at hlist
    have hrun : recorded ctx (eval ctx fuel) opening items s.down = .error h t :=
      bind_of_error hlist
    rw [inside_of_error hrun]
    exact .part hparts
  | ok values t =>
    rw [bind_of_ok hparts] at hlist
    cases hvalue : plan.conclude values with
    | error e =>
      rw [hvalue] at hlist
      have hrun : recorded ctx (eval ctx fuel) opening items s.down = .error (.error e) t :=
        bind_of_error hlist
      rw [inside_of_error hrun]
      exact .form hparts hvalue
    | ok v =>
      rw [hvalue] at hlist
      have hrecord := record_run ctx (.list opening items) v t
      have hrun : recorded ctx (eval ctx fuel) opening items s.down =
          (do record ctx (.list opening items) v; pure v) t := bind_of_ok hlist
      cases hroom : ctx.canRecord t with
      | true =>
        rw [hroom] at hrecord
        rw [bind_of_ok hrecord] at hrun
        rw [inside_of_ok hrun]
        exact .value hparts hvalue hroom
      | false =>
        rw [hroom] at hrecord
        rw [bind_of_error hrecord] at hrun
        rw [inside_of_error hrun]
        exact .unrecorded hparts hvalue hroom

section Ended

variable {ctx : Context} {fuel : Nat} {opening : Position} {items : List Expr} {plan : Plan}
  {r : EStateM.Result Halt Session Value} (hends : ListEnds ctx fuel opening items plan r)
include hends

theorem ListEnds.eq_of_part {h : Halt} {t : Session}
    (hparts : evalEach (eval ctx fuel) plan.parts plan.session = .error h t) : r =
      .error h t.up := by
  cases hends with
  | part hfails =>
    rw [hparts] at hfails
    cases hfails
    rfl
  | value hvalues _ _ | form hvalues _ | unrecorded hvalues _ _ =>
    rw [hparts] at hvalues
    cases hvalues

variable {values : List Value} {t : Session}
  (hparts : evalEach (eval ctx fuel) plan.parts plan.session = .ok values t)
include hparts

theorem ListEnds.eq_of_form {e : EvalError} (hform : plan.conclude values = .error e) :
    r = .error (.error e) t.up := by
  cases hends with
  | part hfails =>
    rw [hparts] at hfails
    cases hfails
  | form hvalues he =>
    rw [hparts] at hvalues
    cases hvalues
    rw [hform] at he
    cases he
    rfl
  | value hvalues hv _ | unrecorded hvalues hv _ =>
    rw [hparts] at hvalues
    cases hvalues
    rw [hform] at hv
    cases hv

theorem ListEnds.eq_of_value {v : Value} (hvalue : plan.conclude values = .ok v) : r =
    if ctx.canRecord t then .ok v (t.recording ctx (.of (.list opening items) v)).up
    else .error (.error .sinkFull) t.up := by
  cases hends with
  | part hfails =>
    rw [hparts] at hfails
    cases hfails
  | form hvalues he =>
    rw [hparts] at hvalues
    cases hvalues
    rw [hvalue] at he
    cases he
  | value hvalues hv hroom | unrecorded hvalues hv hroom =>
    rw [hparts] at hvalues
    cases hvalues
    rw [hvalue] at hv
    cases hv
    simp [hroom]

end Ended

/-! What a plan can be. -/

/-- All the plans that there are for a list, each with what it takes from the list and from the
session. -/
inductive Plan.Made (ctx : Context) (s : Session) (opening : Position) :
    List Expr → Plan → Prop where
  | empty : Made ctx s opening [] (.settled s (.ok .nil))
  | failing {items : List Expr} (e : EvalError) : Made ctx s opening items (.settled s (.error e))
  | quote (t : Token) (args : List Expr) : operatorOf? t = none → isQuote t.text = true →
      Made ctx s opening (.atom t :: args)
        (.settled s (.ok (.list (.list opening (.atom t :: args)))))
  | arithmetic (t : Token) (op : Operator) (x y : Expr) :
      Made ctx s opening [.atom t, x, y] (.arithmetic op s [x, y])
  | definition (t name : Token) (param : Expr) (body : List Expr) :
      Made ctx s opening (.atom t :: .atom name :: param :: body)
        (.definition ctx s (.atom name :: param :: body))
  | bound (t : Token) (args : List Expr) {v : Value} : s.env.lookup? t.text = some v →
      Made ctx s opening (.atom t :: args) (.settled s (.ok v))
  | function (t : Token) (args : List Expr) {f : Function} : s.env.function? t.text = some f →
      Made ctx s opening (.atom t :: args) (.function ctx s f)
  | builtin (t : Token) (args : List Expr) {b : Builtin} : ctx.builtin? t.text = some b →
      Made ctx s opening (.atom t :: args) (.builtin ctx s args b)

section Made

variable (ctx : Context) (s : Session) (opening : Position)

theorem made_arithmetic (t : Token) (op : Operator) (args : List Expr) :
    Plan.Made ctx s opening (.atom t :: args) (.arithmetic op s args) := by
  rcases args with _ | ⟨x, _ | ⟨y, _ | ⟨z, args⟩⟩⟩
  · exact .failing _
  · exact .failing _
  · exact .arithmetic t op x y
  · exact .failing _

theorem made_definition (t : Token) (args : List Expr) :
    Plan.Made ctx s opening (.atom t :: args) (.definition ctx s args) := by
  rcases args with _ | ⟨name, _ | ⟨param, body⟩⟩
  · exact .failing _
  · cases name <;> exact .failing _
  · cases name with
    | atom name => exact .definition t name param body
    | list p es => exact .failing _

theorem made_call (t : Token) (args : List Expr) :
    Plan.Made ctx s opening (.atom t :: args) (.call ctx s t.text args) := by
  unfold Plan.call
  cases hl : s.env.lookup? t.text with
  | some v => exact .bound t args hl
  | none =>
    cases hf : s.env.function? t.text with
    | some f => exact .function t args hf
    | none =>
      cases hb : ctx.builtin? t.text with
      | some b => exact .builtin t args hb
      | none => exact .failing _

theorem plan_made (items : List Expr) :
    Plan.Made ctx s opening items (ctx.plan s opening items) := by
  cases items with
  | nil => exact .empty
  | cons head args =>
    cases head with
    | list p es => exact .failing _
    | atom t =>
      cases hop : operatorOf? t with
      | some op =>
        simp only [Context.plan, hop]
        exact made_arithmetic ctx s opening t op args
      | none =>
        by_cases hquote : isQuote t.text = true
        · simp only [Context.plan, hop, if_pos hquote]
          exact .quote t args hop hquote
        by_cases hdef : t.text = "def"
        · simp only [Context.plan, hop, if_neg hquote, if_pos hdef]
          exact made_definition ctx s opening t args
        · simp only [Context.plan, hop, if_neg hquote, if_neg hdef]
          exact made_call ctx s opening t args

end Made

/-- All that a list can be worth, when `vs` are the values of what was evaluated within. -/
inductive Plan.Yields (ctx : Context) (s : Session) (opening : Position) :
    List Expr → List Value → Value → Prop where
  | nil {items : List Expr} {vs : List Value} : Yields ctx s opening items vs .nil
  | number {items : List Expr} {vs : List Value} (n : Number) :
      Yields ctx s opening items vs n.toValue
  | quote (t : Token) (args : List Expr) {vs : List Value} :
      operatorOf? t = none → isQuote t.text = true →
      Yields ctx s opening (.atom t :: args) vs (.list (.list opening (.atom t :: args)))
  | definition (t name : Token) (param : Expr) (body : List Expr) {vs : List Value} :
      Yields ctx s opening (.atom t :: .atom name :: param :: body) vs
        (.function ⟨name.text, some param, body⟩)
  | bound {items : List Expr} {vs : List Value} {name : String} {v : Value} :
      s.env.lookup? name = some v →
      Yields ctx s opening items vs v
  | last {items : List Expr} {vs : List Value} {v : Value} :
      v ∈ vs → Yields ctx s opening items vs v
  | builtin (t : Token) (args : List Expr) {b : Builtin} {vs : List Value} {v : Value} :
      ctx.builtin? t.text = some b → (Plan.builtin ctx s args b).conclude vs = .ok v →
      Yields ctx s opening (.atom t :: args) vs v

theorem apply_number {op : Operator} {a b v : Value} (h : op.apply a b = .ok v) : ∃ n :
    Number, v = n.toValue := by
  unfold Operator.apply at h
  split at h
  · cases h
  · cases h
  · split at h
    · exact ⟨_, (Except.ok.inj h).symm⟩
    · cases h

theorem Plan.Made.yields {ctx : Context} {s : Session} {opening : Position} {items : List Expr}
    {plan : Plan}
    (h : plan.Made ctx s opening items) {vs : List Value} {v : Value}
      (hv : plan.conclude vs = .ok v) :
    Plan.Yields ctx s opening items vs v := by
  cases h with
  | empty =>
    cases hv
    exact .nil
  | failing e => cases hv
  | quote t args hop hquote =>
    cases hv
    exact .quote t args hop hquote
  | arithmetic t op x y =>
    rcases vs with _ | ⟨a, _ | ⟨b, _ | ⟨c, vs⟩⟩⟩
    · cases hv
    · cases hv
    · obtain ⟨n, rfl⟩ := apply_number hv
      exact .number n
    · cases hv
  | definition t name param body =>
    cases hv
    exact .definition t name param body
  | bound t args hlookup =>
    cases hv
    exact .bound hlookup
  | function t args hf =>
    cases hv
    cases hlast : vs.getLast? with
    | none => exact .nil
    | some v => exact .last (List.mem_of_getLast? hlast)
  | builtin t args hb => exact .builtin t args hb hv

/-- A plan writes nothing to the trace by itself. -/
theorem Plan.Made.trace {ctx : Context} {s : Session} {opening : Position} {items : List Expr}
    {plan : Plan} (h : plan.Made ctx s opening items) : plan.session.trace = s.trace := by
  cases h with
  | @builtin t args b hb => cases b <;> rfl
  | _ => rfl

/-! What values are taken from. -/

section Taken

variable {V : Value → Prop} {s : Session}

theorem lookup?_of_bindings (hnil : V .nil) (h : ∀ b ∈ s.env.bindings, ∀ v ∈ b.value, V v)
    {name : String} {v : Value} (hv : s.env.lookup? name = some v) : V v := by
  obtain ⟨b, hb, rfl⟩ := Option.map_eq_some_iff.1 hv
  cases hvalue : b.value with
  | none => exact hnil
  | some w => exact h b (Array.mem_of_find?_eq_some hb) w hvalue

theorem bindings_of_bind (h : ∀ b ∈ s.env.bindings, ∀ v ∈ b.value, V v) (param : Option Expr) :
    ∀ b ∈ (s.env.bind param none).bindings, ∀ v ∈ b.value, V v := by
  intro b hb
  rcases Array.mem_push.1 hb with hb | rfl
  · exact h b hb
  · simp

theorem format_text {apply : List Value → Except EvalError Value}
    (happly : Builtin.format = .eager apply)
    {vs : List Value} {v : Value} (h : apply vs = .ok v) : ∃ a, v = .text a := by
  cases happly
  cases vs with
  | nil => cases h
  | cons w vs =>
    cases w with
    | text template => exact ⟨_, (Except.ok.inj h).symm⟩
    | _ => cases h

end Taken

/-! What every plan keeps, every evaluation keeps. -/

/-- Properties of expressions, of values and of sessions that evaluation can rely on and keeps
up. -/
structure Kept (ctx : Context) (E : Expr → Prop) (V : Value → Prop) (S : Session → Prop) :
    Prop where
  literal : ∀ {t l}, E (.atom t) → (Expr.atom t).literal = .ok l → V (.ofLiteral l)
  down : ∀ {s}, S s → S s.down
  up : ∀ {s}, S s → S s.up
  record : ∀ {s e v}, S s → E e → V v → S (s.recording ctx (.of e v))
  session : ∀ {s p items plan}, Plan.Made ctx s p items plan → S s → E (.list p items) →
    S plan.session
  parts : ∀ {s p items plan}, Plan.Made ctx s p items plan → S s → E (.list p items) →
    ∀ e ∈ plan.parts, E e
  conclude : ∀ {s p items plan}, Plan.Made ctx s p items plan → S s → E (.list p items) →
    ∀ vs, (∀ v ∈ vs, V v) → ∀ v, plan.conclude vs = .ok v → V v

namespace Kept

variable {ctx : Context} {E : Expr → Prop} {V : Value → Prop} {S : Session → Prop}
    (hK : Kept ctx E V S)

/-- An end that keeps what it has to. -/
def Ends {α : Type} (A : α → Prop) (S : Session → Prop) : EStateM.Result Halt Session α → Prop
  | .ok a s => A a ∧ S s
  | .error _ s => S s

theorem evalEach {ev : Expr → Eval Value} (hev : ∀ e s, E e → S s → Ends V S (ev e s))
    {es : List Expr}
    (hes : ∀ e ∈ es, E e) {s : Session} (hs : S s) : Ends (fun vs => ∀ v ∈ vs, V v) S
      (evalEach ev es s) := by
  induction es generalizing s with
  | nil => exact ⟨by simp, hs⟩
  | cons e es ih =>
    have he := hev e s (hes e List.mem_cons_self) hs
    have ih := fun {t} ht => ih (fun e' he' => hes e' (List.mem_cons_of_mem _ he')) (s := t) ht
    have hends := evalEach_ends ev e es s
    generalize ListLang.evalEach ev (e :: es) s = r at hends ⊢
    cases hends with
    | values hfirst hrest =>
      rw [hfirst] at he
      have hall := ih he.2
      rw [hrest] at hall
      exact ⟨List.forall_mem_cons.2 ⟨he.1, hall.1⟩, hall.2⟩
    | first hfirst =>
      rw [hfirst] at he
      exact he
    | rest hfirst hrest =>
      rw [hfirst] at he
      have hall := ih he.2
      rw [hrest] at hall
      exact hall

include hK

theorem evalAtom {t : Token} {s : Session} (ht : E (.atom t)) (hs : S s) :
    Ends V S (evalAtom t s) := by
  unfold ListLang.evalAtom
  cases hl : (Expr.atom t).literal with
  | ok l => exact ⟨hK.literal ht hl, hs⟩
  | error cause => exact hs

theorem evalList {fuel : Nat} (ih : ∀ e s, E e → S s → Ends V S (ListLang.eval ctx fuel e s))
    {p : Position}
    {items : List Expr} {s : Session} (he : E (.list p items)) (hs : S s)
      {r : EStateM.Result Halt Session Value}
    (h : ListEnds ctx fuel p items (ctx.plan s.down p items) r) : Ends V S r := by
  have hmade := plan_made ctx s.down p items
  have hs := hK.down hs
  have hparts := evalEach ih (hK.parts hmade hs he) (hK.session hmade hs he)
  have hconclude := hK.conclude hmade hs he
  cases h with
  | value hvalues hv _ =>
    rw [hvalues] at hparts
    have hv := hconclude _ hparts.1 _ hv
    exact ⟨hv, hK.up (hK.record hparts.2 he hv)⟩
  | part hfails =>
    rw [hfails] at hparts
    exact hK.up hparts
  | form hvalues _ =>
    rw [hvalues] at hparts
    exact hK.up hparts.2
  | unrecorded hvalues _ _ =>
    rw [hvalues] at hparts
    exact hK.up hparts.2

theorem eval : ∀ (fuel : Nat) (e : Expr) (s : Session), E e → S s → Ends V S (eval ctx fuel e s)
  | fuel, .atom t, s, he, hs => by
    rw [eval_atom]
    exact hK.evalAtom he hs
  | fuel, .list p items, s, he, hs => by
    cases hb : ctx.barrier? fuel s.depth with
    | some h =>
      rw [eval_list_barrier hb]
      exact hs
    | none =>
      obtain ⟨n, rfl⟩ := fuel_of_barrier_none hb
      exact hK.evalList (eval n) he hs (eval_list_ends hb p items)

theorem evalAll {es : List Expr} (hes : ∀ e ∈ es, E e) {s : Session} (hs : S s) :
    Ends (fun vs => ∀ v ∈ vs, V v) S (evalAll ctx es s) :=
  evalEach (hK.eval ctx.fuel) hes hs

end Kept

end ListLang
