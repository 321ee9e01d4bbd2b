import ListLang.Proofs.Growth
import Mathlib.Data.List.Basic
import Mathlib.Logic.Relation

/-! Evaluation one step at a time. A machine holds what is in focus, what is pending on it, and the
session. Its steps need no fuel: where the evaluator answers, the machine comes to the same answer,
and the evaluator gives up only where the machine gets deeper than it was to be followed. -/

namespace ListLang

open Eval Relation

/-- What waits for the value in focus. -/
inductive Pending where
  /-- An operator whose second operand is not evaluated yet. -/
  | operand (op : Operator) (second : Expr)
  /-- An operator whose first operand has this value. -/
  | operator (op : Operator) (first : Value)
  /-- The rest of a function body. -/
  | body (rest : List Expr)
  /-- A builtin, the values of its first arguments, and its other arguments. -/
  | builtin (apply : List Value → Except EvalError Value) (values : List Value) (rest : List Expr)
  /-- A list that was entered. -/
  | list (opening : Position) (items : List Expr)

def Pending.isList : Pending → Bool
  | list _ _ => true
  | _ => false

inductive Focus where
  | expr (e : Expr)
  | value (v : Value)
  | error (e : EvalError)

def Focus.ofLiteral : Except LiteralError Literal → Focus
  | .ok l => value (.ofLiteral l)
  | .error cause => error (.invalidLiteral cause)

def Focus.ofExcept : Except EvalError Value → Focus
  | .ok v => value v
  | .error e => error e

structure Machine where
  focus : Focus
  stack : List Pending
  session : Session

namespace Machine

def start (e : Expr) (s : Session) : Machine := ⟨.expr e, [], s⟩

/-- How many lists are being evaluated. -/
def active (m : Machine) : Nat := m.stack.countP Pending.isList

section Forms

variable (ctx : Context)

def body (last : Value) (es : List Expr) (k : List Pending) (s : Session) : Machine :=
  match es with
  | [] => ⟨.value last, k, s⟩
  | e :: es => ⟨.expr e, .body es :: k, s⟩

def arguments (apply : List Value → Except EvalError Value) (values : List Value) (es : List Expr)
    (k : List Pending) (s : Session) : Machine :=
  match es with
  | [] => ⟨.ofExcept (apply values), k, s⟩
  | e :: es => ⟨.expr e, .builtin apply values es :: k, s⟩

def arithmetic (op : Operator) (args : List Expr) (k : List Pending) (s : Session) : Machine :=
  match args with
  | [x, y] => ⟨.expr x, .operand op y :: k, s⟩
  | args => ⟨.error (.operandCount op args.length), k, s⟩

def definition (args : List Expr) (k : List Pending) (s : Session) : Machine :=
  match args with
  | .atom name :: param :: body =>
    let f : Function := ⟨name.text, some param, body⟩
    ⟨.value (.function f), k, Session.noting { s with env := s.env.define f } ctx .define f⟩
  | .list p es :: _ :: _ => ⟨.error (.nameNotAtom (Expr.list p es).encode), k, s⟩
  | _ => ⟨.error .incompleteDefinition, k, s⟩

def call (name : String) (args : List Expr) (k : List Pending) (s : Session) : Machine :=
  match s.env.lookup? name with
  | some v => ⟨.value v, k, s⟩
  | none =>
    match s.env.function? name with
    | some f =>
      body .nil f.body k (Session.noting { s with env := s.env.bind f.param none } ctx .call f)
    | none =>
      match ctx.builtin? name with
      | some (.eager apply) => arguments apply [] args k s
      | some (.lazy apply) => ⟨.ofExcept (apply (ctx.site s) args), k, s⟩
      | none => ⟨.error (.unbound name), k, s⟩

/-- The beginning of a list that was entered. -/
def form (opening : Position) (items : List Expr) (k : List Pending) (s : Session) : Machine :=
  match items with
  | [] => ⟨.value .nil, k, s⟩
  | .list p es :: _ => ⟨.error (.notCallable (Expr.list p es).encode), k, s⟩
  | .atom t :: args =>
    match operatorOf? t with
    | some op => arithmetic op args k s
    | none =>
      if isQuote t.text then ⟨.value (.list (.list opening (.atom t :: args))), k, s⟩
      else if t.text = "def" then definition ctx args k s
      else call ctx t.text args k s

/-- A value goes to what is pending on it. -/
def resume (v : Value) (first : Pending) (k : List Pending) (s : Session) : Machine :=
  match first with
  | .operand op y => ⟨.expr y, .operator op v :: k, s⟩
  | .operator op a => ⟨.ofExcept (op.apply a v), k, s⟩
  | .body es => body v es k s
  | .builtin apply values es => arguments apply (values ++ [v]) es k s
  | .list p es =>
    if ctx.canRecord s then ⟨.value v, k, (s.recording ctx (.of (.list p es) v)).up⟩
    else ⟨.error .sinkFull, k, s.up⟩

/-- The next machine, unless this one has come to its end. -/
def step? (m : Machine) : Option Machine :=
  match m.focus, m.stack with
  | .expr (.atom t), k => some ⟨.ofLiteral (Expr.atom t).literal, k, m.session⟩
  | .expr (.list p es), k =>
    if ctx.limit ≠ 0 && ctx.limit ≤ m.session.depth then some ⟨.error (.tooDeep ctx.limit),
      k, m.session⟩
    else some (form ctx p es (.list p es :: k) m.session.down)
  | .value v, first :: k => some (resume ctx v first k m.session)
  | .error e, first :: k => some ⟨.error e, k, if first.isList then m.session.up else m.session⟩
  | _, [] => none

end Forms

/-- One step. -/
def Steps (ctx : Context) (m n : Machine) : Prop := step? ctx m = some n

/-- Any number of steps. -/
abbrev Reaches (ctx : Context) : Machine → Machine → Prop := ReflTransGen (Steps ctx)

/-- What a machine has come to, if it has come to its end. -/
def result? (m : Machine) : Option (EStateM.Result Halt Session Value) :=
  match m.focus, m.stack with
  | .value v, [] => some (.ok v m.session)
  | .error e, [] => some (.error (.error e) m.session)
  | _, _ => none

/-! What a step can do. -/

section Step

variable {ctx : Context} {m n : Machine} {k : List Pending} {s : Session}

/-- A machine within the lists of `k` that goes on from `s`. -/
structure Within (k : List Pending) (s : Session) (m : Machine) : Prop where
  active : m.active = k.countP Pending.isList
  depth : m.session.depth = s.depth
  grows : s.Grows m.session

theorem within_rest (focus : Focus) : Within k s ⟨focus, k, s⟩ := ⟨rfl, rfl, .refl s⟩

theorem countP_list (p : Position) (es : List Expr) (k : List Pending) :
    (Pending.list p es :: k).countP Pending.isList = k.countP Pending.isList + 1 :=
  List.countP_cons_of_pos rfl

theorem countP_other {first : Pending} (h : first.isList = false) (k : List Pending) :
    (first :: k).countP Pending.isList = k.countP Pending.isList :=
  List.countP_cons_of_neg (by simp [h])

theorem within_push (focus : Focus) {first : Pending} (h : first.isList = false) :
    Within k s ⟨focus, first :: k, s⟩ :=
  ⟨countP_other h k, rfl, .refl s⟩

theorem Within.of_grows {t : Session} (h : Within k t m) (hdepth : t.depth = s.depth)
    (hgrows : s.Grows t) :
    Within k s m :=
  ⟨h.active, h.depth.trans hdepth, hgrows.trans h.grows⟩

theorem within_body (last : Value) (es : List Expr) : Within k s (body last es k s) := by
  cases es with
  | nil => exact within_rest _
  | cons e es => exact within_push _ rfl

theorem within_arguments (apply : List Value → Except EvalError Value) (values : List Value)
    (es : List Expr) : Within k s (arguments apply values es k s) := by
  cases es with
  | nil => exact within_rest _
  | cons e es => exact within_push _ rfl

theorem arithmetic_of_length {op : Operator} {args : List Expr} (h : args.length ≠ 2) :
    arithmetic op args k s = ⟨.error (.operandCount op args.length), k, s⟩ := by
  unfold arithmetic
  split
  · exact absurd rfl h
  · rfl

theorem within_arithmetic (op : Operator) (args : List Expr) :
    Within k s (arithmetic op args k s) := by
  unfold arithmetic
  split
  · exact within_push _ rfl
  · exact within_rest _

theorem within_definition (args : List Expr) : Within k s (definition ctx args k s) := by
  unfold definition
  split
  · rename_i name param body
    have hgrows := addFunction_grows ctx ⟨name.text, some param, body⟩ s
    rw [addFunction_run] at hgrows
    exact ⟨rfl, rfl, hgrows⟩
  · exact within_rest _
  · exact within_rest _

theorem within_call (name : String) (args : List Expr) : Within k s (call ctx name args k s) := by
  unfold call
  split
  · exact within_rest _
  · split
    · rename_i f _
      have hgrows := addCall_grows ctx f s
      rw [addCall_run] at hgrows
      exact (within_body .nil f.body).of_grows rfl hgrows
    · split
      · exact within_arguments _ _ _
      · exact within_rest _
      · exact within_rest _

theorem within_form (p : Position) (es : List Expr) : Within k s (form ctx p es k s) := by
  unfold form
  split
  · exact within_rest _
  · exact within_rest _
  · split
    · exact within_arithmetic _ _
    · split
      · exact within_rest _
      · split
        · exact within_definition _
        · exact within_call _ _

theorem within_resume (v : Value) {first : Pending} (h : first.isList = false) :
    Within k s (resume ctx v first k s) := by
  cases first with
  | operand op y => exact within_push _ rfl
  | operator op a => exact within_rest _
  | body es => exact within_body v es
  | builtin apply values es => exact within_arguments _ _ _
  | list p es => cases h

/-- A step enters a list, which the limit has to allow, stays within the lists that are being
evaluated, or leaves the last one. -/
inductive Moved (ctx : Context) (m n : Machine) : Prop where
  | enter : ctx.limit = 0 ∨ m.session.depth < ctx.limit → n.active = m.active + 1 →
      n.session.depth = m.session.depth + 1 → Moved ctx m n
  | stay : n.active = m.active → n.session.depth = m.session.depth → Moved ctx m n
  | leave : n.active + 1 = m.active → n.session.depth = m.session.depth - 1 → Moved ctx m n

theorem steps_atom (t : Token) :
    Steps ctx ⟨.expr (.atom t), k, s⟩ ⟨.ofLiteral (Expr.atom t).literal, k, s⟩ := rfl

theorem steps_deep (p : Position) (es : List Expr)
    (h : (ctx.limit ≠ 0 && ctx.limit ≤ s.depth) = true) :
    Steps ctx ⟨.expr (.list p es), k, s⟩ ⟨.error (.tooDeep ctx.limit), k, s⟩ := if_pos h

theorem steps_enter (p : Position) (es : List Expr)
    (h : ¬(ctx.limit ≠ 0 && ctx.limit ≤ s.depth) = true) :
    Steps ctx ⟨.expr (.list p es), k, s⟩ (form ctx p es (.list p es :: k) s.down) := if_neg h

theorem steps_value (v : Value) (first : Pending) :
    Steps ctx ⟨.value v, first :: k, s⟩ (resume ctx v first k s) := rfl

/-- An error passes by what is pending, and leaves the lists among it. -/
theorem steps_error (e : EvalError) {first : Pending} (h : first.isList = false) :
    Steps ctx ⟨.error e, first :: k, s⟩ ⟨.error e, k, s⟩ := by
  simp only [Steps, step?, h]
  rfl

theorem steps_error_list (e : EvalError) (p : Position) (es : List Expr) :
    Steps ctx ⟨.error e, .list p es :: k, s⟩ ⟨.error e, k, s.up⟩ := rfl

theorem Steps.unique {n' : Machine} (h : Steps ctx m n) (h' : Steps ctx m n') : n = n' :=
  Option.some.inj (h.symm.trans h')

theorem grows_up (s : Session) : s.Grows s.up :=
  ⟨List.prefix_rfl, List.prefix_rfl, List.prefix_rfl, List.prefix_rfl⟩

theorem moved_of_resume_list (v : Value) (p : Position) (es : List Expr) :
    Moved ctx ⟨.value v, .list p es :: k, s⟩ (resume ctx v (.list p es) k s) ∧
      s.Grows (resume ctx v (.list p es) k s).session := by
  have hactive := countP_list p es k
  have hgrows := record_grows ctx (.list p es) v s
  rw [record_run] at hgrows
  unfold resume
  simp only
  split
  · rename_i hrecord
    rw [if_pos hrecord] at hgrows
    exact ⟨.leave hactive.symm rfl, hgrows.trans (grows_up _)⟩
  · exact ⟨.leave hactive.symm rfl, grows_up s⟩

theorem Steps.moved_grows (h : Steps ctx m n) : Moved ctx m n ∧ m.session.Grows n.session := by
  obtain ⟨focus, k, s⟩ := m
  cases focus with
  | expr e =>
    cases e with
    | atom t =>
      rw [h.unique (steps_atom t)]
      exact ⟨.stay rfl rfl, .refl s⟩
    | list p es =>
      by_cases hdeep : (ctx.limit ≠ 0 && ctx.limit ≤ s.depth) = true
      · rw [h.unique (steps_deep p es hdeep)]
        exact ⟨.stay rfl rfl, .refl s⟩
      · rw [h.unique (steps_enter p es hdeep)]
        have hform : Within (.list p es :: k) s.down (form ctx p es (.list p es :: k) s.down) :=
          within_form p es
        have hlimit : ctx.limit = 0 ∨ s.depth < ctx.limit := by
          simp only [Bool.and_eq_true, decide_eq_true_eq] at hdeep
          omega
        exact ⟨.enter hlimit (hform.active.trans (countP_list p es k)) hform.depth,
          ⟨hform.grows.functions, hform.grows.bindings, hform.grows.trace, hform.grows.journal⟩⟩
  | value v =>
    cases k with
    | nil => cases h
    | cons first k =>
      rw [h.unique (steps_value v first)]
      cases hlist : first.isList with
      | true =>
        cases first with
        | list p es => exact moved_of_resume_list v p es
        | _ => cases hlist
      | false =>
        have hresume : Within k s (resume ctx v first k s) := within_resume v hlist
        exact ⟨.stay (hresume.active.trans (countP_other hlist k).symm) hresume.depth,
          hresume.grows⟩
  | error e =>
    cases k with
    | nil => cases h
    | cons first k =>
      cases hlist : first.isList with
      | true =>
        cases first with
        | list p es =>
          rw [h.unique (steps_error_list e p es)]
          exact ⟨.leave (countP_list p es k).symm rfl, grows_up s⟩
        | _ => cases hlist
      | false =>
        rw [h.unique (steps_error e hlist)]
        exact ⟨.stay (countP_other hlist k).symm rfl, .refl s⟩

theorem Reaches.grows (h : Reaches ctx m n) : m.session.Grows n.session := by
  induction h with
  | refl => exact .refl _
  | tail _ hstep ih => exact ih.trans hstep.moved_grows.2

/-- The depth goes up and down with the lists that are being evaluated. -/
theorem Reaches.depth_of_active {base : Nat} (h : Reaches ctx m n)
    (hm : m.session.depth = base + m.active) :
    n.session.depth = base + n.active := by
  induction h with
  | refl => exact hm
  | tail _ hstep ih =>
    cases hstep.moved_grows.1 with
    | enter _ hactive hdepth => omega
    | stay hactive hdepth => omega
    | leave hactive hdepth => omega

/-- The depth counts the lists that are being evaluated, and a limit bounds them. -/
theorem Reaches.depth_active {e : Expr} (h : Reaches ctx (start e s) m) :
    m.session.depth = s.depth + m.active ∧ (ctx.limit ≠ 0 → m.active ≤ ctx.limit - s.depth) := by
  refine ⟨h.depth_of_active rfl, fun hpos => ?_⟩
  induction h with
  | refl => exact Nat.zero_le _
  | @tail m n hreaches hstep ih =>
    have hdepth : m.session.depth = s.depth + m.active :=
      Reaches.depth_of_active hreaches rfl
    cases hstep.moved_grows.1 with
    | enter hbelow hactive _ => omega
    | stay hactive _ => omega
    | leave hactive _ => omega

end Step

/-! The machine and the evaluator. -/

section Evaluator

variable {ctx : Context} {k : List Pending} {m n : Machine} {s : Session} {d depth : Nat}

/-- The machine gets from `m` to an answer with `k` pending on it; or, where there is none because
the evaluation was given up, to the depth `d`. -/
def Yields (ctx : Context) (d : Nat) (k : List Pending) (m : Machine) :
    EStateM.Result Halt Session Value → Prop
  | .ok v t => Reaches ctx m ⟨.value v, k, t⟩
  | .error (.error e) t => Reaches ctx m ⟨.error e, k, t⟩
  | .error .exhausted _ => ∃ n, Reaches ctx m n ∧ d ≤ n.session.depth

/-- The machine does what `ev` does from sessions of this depth. -/
structure Carries (ctx : Context) (d depth : Nat) (ev : Expr → Eval Value) : Prop where
  yields : ∀ e k s, s.depth = depth → Yields ctx d k ⟨.expr e, k, s⟩ (ev e s)
  level : ∀ e, Moves (fun s t => s.depth = t.depth) (ev e)

theorem Yields.after {r : EStateM.Result Halt Session Value} (hmn : Reaches ctx m n)
    (hn : Yields ctx d k n r) :
    Yields ctx d k m r := by
  cases r with
  | ok v t => exact hmn.trans hn
  | error h t =>
    cases h with
    | error e => exact hmn.trans hn
    | exhausted =>
      obtain ⟨n', hn', hdeep⟩ := hn
      exact ⟨n', hmn.trans hn', hdeep⟩

theorem yields_ofExcept (r : Except EvalError Value) :
    Yields ctx d k ⟨.ofExcept r, k, s⟩ (ofExcept r s) := by
  cases r with
  | ok v => exact .refl
  | error e => exact .refl

/-- What is pending takes the value and goes on; an error passes it by. -/
theorem Yields.bind {x : Eval Value} {f : Value → Eval Value} {first : Pending}
    (hfirst : first.isList = false) (hx : Yields ctx d (first :: k) m (x s))
    (hf : ∀ v t, x s = .ok v t → Yields ctx d k (resume ctx v first k t) (f v t)) :
    Yields ctx d k m ((x >>= f) s) := by
  cases hs : x s with
  | ok v t =>
    rw [hs] at hx
    rw [bind_of_ok hs]
    exact (hf v t hs).after (hx.tail (steps_value v first))
  | error h t =>
    rw [hs] at hx
    rw [bind_of_error hs]
    cases h with
    | error e => exact ReflTransGen.tail hx (steps_error e hfirst)
    | exhausted => exact hx

variable {ev : Expr → Eval Value} (hev : Carries ctx d depth ev)
include hev

theorem Carries.depth_of_ok {e : Expr} {v : Value} {t : Session} (hs : s.depth = depth)
    (h : ev e s = .ok v t) :
    t.depth = depth := by
  have := hev.level e s
  rw [h] at this
  exact this.symm.trans hs

theorem Carries.evalBody (last : Value) (es : List Expr) (k : List Pending) (hs : s.depth = depth) :
    Yields ctx d k (body last es k s) (evalBody ev last es s) := by
  induction es generalizing last s with
  | nil => exact .refl
  | cons e es ih =>
    exact (hev.yields e (.body es :: k) s hs).bind rfl fun v t ht => ih v (hev.depth_of_ok hs ht)

theorem Carries.evalEach (apply : List Value → Except EvalError Value) (values : List Value)
    (es : List Expr) (k : List Pending) (hs : s.depth = depth) :
    Yields ctx d k (arguments apply values es k s)
      ((evalEach ev es >>= fun vs => ofExcept (apply (values ++ vs))) s) := by
  induction es generalizing values s with
  | nil =>
    have hnil : (ListLang.evalEach ev [] >>= fun vs => ofExcept (apply (values ++ vs))) s =
        ofExcept (apply (values ++ [])) s := rfl
    rw [hnil, List.append_nil]
    exact yields_ofExcept _
  | cons e es ih =>
    have hcons : (ListLang.evalEach ev (e :: es) >>= fun vs => ofExcept (apply (values ++ vs))) =
        ev e >>= fun v => ListLang.evalEach ev es >>= fun vs => ofExcept
          (apply (values ++ [v] ++ vs)) := by
      simp [ListLang.evalEach]
    rw [hcons]
    exact (hev.yields e (.builtin apply values es :: k) s hs).bind rfl
      fun v t ht => ih (values ++ [v]) (hev.depth_of_ok hs ht)

theorem Carries.evalArithmetic (op : Operator) (args : List Expr) (k : List Pending)
    (hs : s.depth = depth) :
    Yields ctx d k (arithmetic op args k s) (evalArithmetic ev op args s) := by
  by_cases hlen : args.length = 2
  · obtain ⟨x, y, rfl⟩ := List.length_eq_two.1 hlen
    refine (hev.yields x (.operand op y :: k) s hs).bind rfl fun a t ht => ?_
    exact (hev.yields y (.operator op a :: k) t (hev.depth_of_ok hs ht)).bind rfl
      fun b u hu => yields_ofExcept _
  · rw [arithmetic_of_length hlen, evalArithmetic_of_length ev op hlen]
    exact .refl

omit hev in
theorem yields_definition (args : List Expr) (k : List Pending) :
    Yields ctx d k (definition ctx args k s) (evalDefinition ctx args s) := by
  cases args with
  | nil => exact .refl
  | cons name args =>
    cases args with
    | nil =>
      rw [evalDefinition_singleton]
      cases name <;> exact .refl
    | cons param body =>
      cases name with
      | atom name =>
        rw [evalDefinition_atom, bind_of_ok (addFunction_run _ _ _)]
        exact .refl
      | list p es => exact .refl

theorem Carries.evalCall (name : String) (args : List Expr) (k : List Pending)
    (hs : s.depth = depth) :
    Yields ctx d k (call ctx name args k s) (evalCall ctx ev name args s) := by
  unfold call
  split
  · rename_i v hl
    rw [evalCall_of_lookup hl]
    exact .refl
  · rename_i hl
    split
    · rename_i f hf
      rw [evalCall_of_function hl hf, evalFunction_eq, bind_of_ok (addCall_run _ _ _)]
      exact hev.evalBody .nil f.body k hs
    · rename_i hf
      split
      · rename_i apply hb
        rw [evalCall_of_builtin hl hf hb]
        exact hev.evalEach apply [] args k hs
      · rename_i apply hb
        rw [evalCall_of_builtin hl hf hb]
        exact yields_ofExcept _
      · rename_i hb
        rw [evalCall_of_unbound hl hf hb]
        exact .refl

theorem Carries.evalList (p : Position) (es : List Expr) (k : List Pending) (hs : s.depth = depth) :
    Yields ctx d k (form ctx p es k s) (evalList ctx ev p es s) := by
  cases es with
  | nil => exact .refl
  | cons head args =>
    cases head with
    | list q xs => exact .refl
    | atom t =>
      rw [form]
      cases hop : operatorOf? t with
      | some op =>
        rw [evalList_of_operator args hop]
        exact hev.evalArithmetic op args k hs
      | none =>
        simp only
        split
        · rename_i hquote
          rw [evalList_of_quote args hop hquote]
          exact .refl
        · rename_i hquote
          split
          · rename_i hdef
            rw [evalList_of_definition args hop hquote hdef]
            exact yields_definition args k
          · rename_i hdef
            rw [evalList_of_call args hop hquote hdef]
            exact hev.evalCall t.text args k hs

/-- A list that was entered is evaluated, recorded and left. -/
theorem Carries.inside (p : Position) (es : List Expr) (k : List Pending)
    (hs : s.down.depth = depth) :
    Yields ctx d k (form ctx p es (.list p es :: k) s.down) (inside (recorded ctx ev p es) s) := by
  have hlist := hev.evalList p es (.list p es :: k) hs
  cases hr : ListLang.evalList ctx ev p es s.down with
  | ok v t =>
    rw [hr] at hlist
    have hclose := hlist.tail (steps_value v (.list p es))
    have hrun : recorded ctx ev p es s.down = (record ctx (.list p es) v >>= fun _ => pure v) t :=
      bind_of_ok hr
    by_cases hrecord : ctx.canRecord t = true
    · have hdone : recorded ctx ev p es s.down = .ok v (t.recording ctx (.of (.list p es) v)) := by
        rw [hrun, bind_of_ok (by rw [record_run, if_pos hrecord])]
        rfl
      rw [inside_of_ok hdone]
      rwa [resume, if_pos hrecord] at hclose
    · have hfull : recorded ctx ev p es s.down = .error (.error .sinkFull) t := by
        rw [hrun, bind_of_error (by rw [record_run, if_neg hrecord])]
      rw [inside_of_error hfull]
      rwa [resume, if_neg hrecord] at hclose
  | error h t =>
    rw [hr] at hlist
    have hfailed : recorded ctx ev p es s.down = .error h t := bind_of_error hr
    rw [inside_of_error hfailed]
    cases h with
    | error e => exact ReflTransGen.tail hlist (steps_error_list e p es)
    | exhausted => exact hlist

end Evaluator

/-- No evaluation changes the depth. -/
theorem depth_steady (ctx : Context) : Steady ctx fun s t => s.depth = t.depth where
  refl _ := rfl
  trans := Eq.trans
  level {s t} h := by
    show s.depth = t.depth - 1
    rw [← h]
    rfl
  record e v s := by
    rw [record_run]
    split <;> rfl
  define f s := by rw [addFunction_run]; rfl
  call s _ f _ _ := by rw [addCall_run]; rfl

/-- The machine does what the evaluator does. -/
theorem carries_eval (ctx : Context) :
    ∀ fuel depth, Carries ctx (depth + fuel + 1) depth (eval ctx fuel) := by
  intro fuel
  -- on the fuel, for all depths: one level in there is less fuel and more depth, and the sum stays
  induction fuel using Nat.strongRecOn with
  | ind fuel ih =>
    intro depth
    refine ⟨fun e k s hs => ?_, (depth_steady ctx).eval fuel⟩
    cases e with
    | atom t =>
      rw [eval_atom]
      refine Yields.after (.single (steps_atom t)) ?_
      unfold evalAtom
      cases (Expr.atom t).literal with
      | ok l => exact .refl
      | error cause => exact .refl
    | list p es =>
      by_cases hdeep : (ctx.limit ≠ 0 && ctx.limit ≤ s.depth) = true
      · have hbarrier : ctx.barrier? fuel s.depth = some (.error (.tooDeep ctx.limit)) :=
          if_pos hdeep
        rw [eval_list_barrier hbarrier]
        exact ReflTransGen.single (steps_deep p es hdeep)
      · have henter := ReflTransGen.single (steps_enter (k := k) p es hdeep)
        cases fuel with
        | zero =>
          have hbarrier : ctx.barrier? 0 s.depth = some .exhausted := by
            rw [Context.barrier?, if_neg hdeep, if_pos rfl]
          rw [eval_list_barrier hbarrier]
          have hform : Within (.list p es :: k) s.down (form ctx p es (.list p es :: k) s.down) :=
            within_form p es
          have hdepth : depth + 0 + 1 = s.down.depth := by rw [← hs]; rfl
          exact ⟨_, henter, Nat.le_of_eq (hdepth.trans hform.depth.symm)⟩
        | succ fuel =>
          have hbarrier : ctx.barrier? (fuel + 1) s.depth = none := by
            rw [Context.barrier?, if_neg hdeep, if_neg (Nat.succ_ne_zero fuel)]
          have hinner := ih fuel (Nat.lt_succ_self fuel) (depth + 1)
          have hdepth : depth + 1 + fuel + 1 = depth + (fuel + 1) + 1 := by omega
          rw [hdepth] at hinner
          rw [eval_list_inside hbarrier]
          exact (hinner.inside p es k (congrArg (· + 1) hs)).after henter

end Machine

end ListLang
