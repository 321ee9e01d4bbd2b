import ListLang.Proofs.AppendOnly
import ListLang.Proofs.Plan
import ListLang.Proofs.Termination

/-! A variable shadows for good. From the moment a name is bound, no call of a function or of a
builtin of that name is begun any more, whatever the session goes on to do; a list with that name
for its head is the value of the first binding. So a function that is named like its own parameter
is called once at most. -/

namespace ListLang

open Eval Machine

/-- What a list can call. -/
inductive Call where
  | function (f : Function)
  | builtin (name : String) (b : Builtin)

def Call.name : Call → String
  | function f => f.name
  | builtin name _ => name

/-- A call of a function with this name that binds this name. -/
def Call.shadowsItself (name : String) : Call → Bool
  | function f => f.name = name && Binding.isFor ⟨f.param, none⟩ name
  | builtin _ _ => false

/-- A head that is looked up: no operator, no quotation and no definition. -/
structure Token.IsName (t : Token) : Prop where
  operator : operatorOf? t = none
  quote : ¬isQuote t.text = true
  definition : t.text ≠ "def"

instance (t : Token) : Decidable t.IsName :=
  decidable_of_iff (operatorOf? t = none ∧ ¬isQuote t.text = true ∧ t.text ≠ "def")
    ⟨fun h => ⟨h.1, h.2.1, h.2.2⟩, fun h => ⟨h.operator, h.quote, h.definition⟩⟩

/-- What a name calls. A variable calls nothing, and a function comes before a builtin. -/
def Context.callee? (ctx : Context) (env : Environment) (name : String) : Option Call :=
  match env.lookup? name with
  | some _ => none
  | none =>
    match env.function? name with
    | some f => some (.function f)
    | none => (ctx.builtin? name).map (.builtin name)

namespace Machine

/-- The call that the next step begins, if it begins one. -/
def call? (ctx : Context) (m : Machine) : Option Call :=
  match m.focus with
  | .expr (.list _ (.atom t :: _)) =>
    if ctx.limit ≠ 0 && ctx.limit ≤ m.session.depth then none
    else if t.IsName then ctx.callee? m.session.env t.text
    else none
  | _ => none

/-- No evaluation is under way. -/
def AtRest (m : Machine) : Prop := m.result?.isSome = true

def resting (s : Session) : Machine := ⟨.value .nil, [], s⟩

end Machine

/-- The course of a session from one moment to a later one, by steps of an evaluation and by what
the host does between evaluations. The calls that are begun on the way come in order. -/
inductive Course (ctx : Context) (m : Machine) : List Call → Machine → Prop where
  | here : Course ctx m [] m
  | step {calls : List Call} {n n' : Machine} : Course ctx m calls n → Steps ctx n n' →
      Course ctx m (calls ++ (n.call? ctx).toList) n'
  | eval {calls : List Call} {n : Machine} (e : Expr) : Course ctx m calls n → n.AtRest →
      Course ctx m calls (.start e n.session)
  | define {calls : List Call} {n : Machine} (f : Function) : Course ctx m calls n → n.AtRest →
      Course ctx m calls (.resting { n.session with env := n.session.env.define f })
  | bind {calls : List Call} {n : Machine} (param : Option Expr) (value : Option Value) :
      Course ctx m calls n →
      n.AtRest →
        Course ctx m calls (.resting { n.session with env := n.session.env.bind param value })

/-! Every session of actions has its course. -/

section Actions

variable {ctx : Context} {m n n' : Machine} {calls calls' : List Call}

theorem Course.trans (h : Course ctx m calls n) (h' : Course ctx n calls' n') :
    Course ctx m (calls ++ calls') n' := by
  induction h' with
  | here => rwa [List.append_nil]
  | step _ hstep ih =>
    rw [← List.append_assoc]
    exact ih.step hstep
  | eval e _ hrest ih => exact ih.eval e hrest
  | define f _ hrest ih => exact ih.define f hrest
  | bind param value _ hrest ih => exact ih.bind param value hrest

theorem course_of_reaches (h : Reaches ctx m n) : ∃ calls, Course ctx m calls n := by
  induction h with
  | refl => exact ⟨[], .here⟩
  | tail _ hstep ih =>
    obtain ⟨calls, hcourse⟩ := ih
    exact ⟨_, hcourse.step hstep⟩

/-- A computation is reached by a course, unless it was given up. -/
def Reached {α : Type} (ctx : Context) (m : Machine) (r : EStateM.Result Halt Session α) : Prop :=
  failure? r ≠ some .exhausted → ∃ calls n, Course ctx m calls n ∧ n.AtRest ∧ n.session = final r

theorem reached_eval (e : Expr) (hrest : m.AtRest) :
    Reached ctx m (eval ctx ctx.fuel e m.session) := by
  have hstart : Course ctx m [] (start e m.session) := Course.here.eval e hrest
  have hyields := (carries_eval ctx ctx.fuel m.session.depth).yields e [] m.session rfl
  intro hgoes
  cases hr : eval ctx ctx.fuel e m.session with
  | ok v t =>
    rw [hr] at hyields
    obtain ⟨calls, hcourse⟩ := course_of_reaches hyields
    exact ⟨_, _, hstart.trans hcourse, rfl, rfl⟩
  | error h t =>
    rw [hr] at hyields hgoes
    cases h with
    | error err =>
      obtain ⟨calls, hcourse⟩ := course_of_reaches hyields
      exact ⟨_, _, hstart.trans hcourse, rfl, rfl⟩
    | exhausted => exact absurd rfl hgoes

theorem reached_evalEach (es : List Expr) (hrest : m.AtRest) :
    Reached ctx m (evalEach (eval ctx ctx.fuel) es m.session) := by
  induction es generalizing m with
  | nil => exact fun _ => ⟨[], m, .here, hrest, rfl⟩
  | cons e es ih =>
    have hfirst : Reached ctx m (eval ctx ctx.fuel e m.session) := reached_eval e hrest
    have hends := evalEach_ends (eval ctx ctx.fuel) e es m.session
    generalize evalEach (eval ctx ctx.fuel) (e :: es) m.session = r at hends ⊢
    intro hgoes
    cases hends with
    | values he hes =>
      rw [he] at hfirst
      obtain ⟨calls, n, hcourse, hn, hsession⟩ := hfirst (by simp [failure?])
      have hrest' := ih hn
      rw [hsession, final, hes] at hrest'
      obtain ⟨calls', n', hcourse', hn', hsession'⟩ := hrest' (by simp [failure?])
      exact ⟨_, n', hcourse.trans hcourse', hn', hsession'⟩
    | first he =>
      rw [he] at hfirst
      exact hfirst hgoes
    | rest he hes =>
      rw [he] at hfirst
      obtain ⟨calls, n, hcourse, hn, hsession⟩ := hfirst (by simp [failure?])
      have hrest' := ih hn
      rw [hsession, final, hes] at hrest'
      obtain ⟨calls', n', hcourse', hn', hsession'⟩ := hrest' hgoes
      exact ⟨_, n', hcourse.trans hcourse', hn', hsession'⟩

theorem reached_perform (a : Action) (hrest : m.AtRest) :
    Reached ctx m (a.perform ctx m.session) := by
  cases a with
  | eval e =>
    rw [perform_eval]
    exact reached_evalEach [e] hrest
  | evalAll es => exact reached_evalEach es hrest
  | define f => exact fun _ => ⟨[], _, .define f .here hrest, rfl, rfl⟩
  | bind param value => exact fun _ => ⟨[], _, .bind param value .here hrest, rfl, rfl⟩

theorem answer_eq_error {α : Type} {r : EStateM.Result Halt Session α} {h : Halt} :
    answer r = .error h ↔ failure? r = some h := by
  cases r <;> simp [answer, failure?]

/-- Actions lead the session along a course, as long as none of them is given up. -/
theorem course_of_performAll {as : List Action} {s : Session} (hs : m.session = s)
    (hrest : m.AtRest) (hgoes : ∀ r ∈ (performAll ctx as s).1, r ≠ .error .exhausted) :
    ∃ calls n, Course ctx m calls n ∧ n.AtRest ∧ n.session = (performAll ctx as s).2 := by
  induction as generalizing m s with
  | nil => exact ⟨[], m, .here, hrest, hs⟩
  | cons a as ih =>
    subst hs
    have hfirst := mt answer_eq_error.2 (hgoes _ List.mem_cons_self)
    obtain ⟨calls, n, hcourse, hn, hsession⟩ := reached_perform a hrest hfirst
    obtain ⟨calls', n', hcourse', hn', hsession'⟩ :=
      ih hsession hn fun r hr => hgoes r (List.mem_cons_of_mem _ hr)
    exact ⟨_, n', hcourse.trans hcourse', hn', hsession'⟩

theorem perform_ne_exhausted (hlimit : 0 < ctx.limit) (a : Action) (s : Session) :
    failure? (a.perform ctx s) ≠ some .exhausted := by
  have hall : ∀ es, failure? (Action.perform ctx (.evalAll es) s) ≠ some .exhausted := by
    intro es hfails
    obtain ⟨e, -, t, ht⟩ := evalEach_failure hfails
    exact eval_ne_exhausted hlimit e t ht
  cases a with
  | eval e =>
    rw [perform_eval]
    exact hall [e]
  | evalAll es => exact hall es
  | define f => exact fun h => nomatch h
  | bind param value => exact fun h => nomatch h

/-- Under a limit no action is given up. -/
theorem performAll_ne_exhausted (hlimit : 0 < ctx.limit) (as : List Action) (s : Session) :
    ∀ r ∈ (performAll ctx as s).1, r ≠ .error .exhausted := by
  induction as generalizing s with
  | nil => simp [performAll]
  | cons a as ih =>
    intro r hr
    rcases List.mem_cons.1 hr with rfl | hr
    · exact mt answer_eq_error.1 (perform_ne_exhausted hlimit a s)
    · exact ih _ r hr

end Actions

/-! What a step calls. -/

section Calls

variable {ctx : Context} {m n : Machine} {calls : List Call} {name : String}

theorem name_of_callee? {env : Environment} {c : Call} (h : ctx.callee? env name = some c) :
    c.name = name ∧ env.lookup? name = none := by
  unfold Context.callee? at h
  cases hl : env.lookup? name with
  | some v => simp [hl] at h
  | none =>
    refine ⟨?_, rfl⟩
    cases hf : env.function? name with
    | some f =>
      simp only [hl, hf, Option.some.injEq] at h
      subst h
      have hfound := Array.find?_some (p := fun g : Function => g.name = name) hf
      exact of_decide_eq_true hfound
    | none =>
      simp only [hl, hf, Option.map_eq_some_iff] at h
      obtain ⟨b, -, rfl⟩ := h
      rfl

/-- A name that is called is not bound. -/
theorem lookup?_of_call? {c : Call} (h : m.call? ctx = some c) :
    m.session.env.lookup? c.name = none := by
  unfold call? at h
  split at h
  · split at h
    · cases h
    · split at h
      · obtain ⟨hname, hlookup⟩ := name_of_callee? h
        rwa [hname]
      · cases h
  · cases h

theorem call?_list {p : Position} {t : Token} {args : List Expr} {k : List Pending} {s : Session}
    (hdeep : ¬(ctx.limit ≠ 0 && ctx.limit ≤ s.depth) = true) :
    call? ctx ⟨.expr (.list p (.atom t :: args)), k, s⟩ =
      if t.IsName then ctx.callee? s.env t.text else none := if_neg hdeep

theorem form_of_name {p : Position} {t : Token} {args : List Expr} {k : List Pending} {s : Session}
    (h : t.IsName) :
    form ctx p (.atom t :: args) k s = call ctx t.text args k s := by
  simp only [form, h.operator, if_neg h.quote, if_neg h.definition]

theorem session_body (last : Value) (es : List Expr) (k : List Pending) (s : Session) :
    (body last es k s).session = s := by
  cases es <;> rfl

theorem session_arguments (apply : List Value → Except EvalError Value) (values : List Value)
    (es : List Expr)
    (k : List Pending) (s : Session) : (arguments apply values es k s).session = s := by
  cases es <;> rfl

theorem session_arithmetic (op : Operator) (args : List Expr) (k : List Pending) (s : Session) :
    (arithmetic op args k s).session = s := by
  unfold arithmetic
  split <;> rfl

theorem bindings_definition (args : List Expr) (k : List Pending) (s : Session) :
    (definition ctx args k s).session.env.bindings = s.env.bindings := by
  unfold definition
  split <;> rfl

/-- The bindings that a call makes. -/
def Call.bindings : Call → List Binding
  | function f => [⟨f.param, none⟩]
  | builtin _ _ => []

theorem bindings_call (name : String) (args : List Expr) (k : List Pending) (s : Session) :
    (call ctx name args k s).session.env.bindings.toList =
      s.env.bindings.toList ++ (ctx.callee? s.env name).toList.flatMap Call.bindings := by
  unfold call Context.callee?
  cases s.env.lookup? name with
  | some v => simp
  | none =>
    cases s.env.function? name with
    | some f => simp [session_body, Session.noting, Environment.bind, Call.bindings]
    | none =>
      cases ctx.builtin? name with
      | none => simp
      | some b => cases b <;> simp [session_arguments, Call.bindings]

theorem bindings_form (p : Position) (t : Token) (args : List Expr) (k : List Pending)
    (s : Session) :
    (form ctx p (.atom t :: args) k s).session.env.bindings.toList =
      s.env.bindings.toList ++ (if t.IsName then ctx.callee? s.env t.text
        else none).toList.flatMap Call.bindings := by
  by_cases hname : t.IsName
  · rw [form_of_name hname, if_pos hname, bindings_call]
  · rw [if_neg hname]
    simp only [form, Option.toList_none, List.flatMap_nil, List.append_nil]
    cases hop : operatorOf? t with
    | some op => exact congrArg (·.env.bindings.toList) (session_arithmetic op args k s)
    | none =>
      simp only
      split
      · rfl
      · rename_i hquote
        split
        · rw [bindings_definition]
        · rename_i hdef
          exact absurd ⟨hop, hquote, hdef⟩ hname

/-- Calls of functions make bindings, and nothing else that is evaluated does. -/
theorem Machine.Steps.bindings (h : Steps ctx m n) :
    n.session.env.bindings.toList =
      m.session.env.bindings.toList ++ (m.call? ctx).toList.flatMap Call.bindings := by
  obtain ⟨focus, k, s⟩ := m
  cases focus with
  | expr e =>
    cases e with
    | atom t =>
      rw [h.unique (steps_atom t)]
      simp [call?]
    | list p es =>
      by_cases hdeep : (ctx.limit ≠ 0 && ctx.limit ≤ s.depth) = true
      · have hcall : call? ctx ⟨.expr (.list p es), k, s⟩ = none := by
          unfold call?
          split
          · exact if_pos hdeep
          · rfl
        rw [h.unique (steps_deep p es hdeep), hcall]
        simp
      · rw [h.unique (steps_enter p es hdeep)]
        cases es with
        | nil => simp [form, call?, Session.down]
        | cons head args =>
          cases head with
          | list q xs => simp [form, call?, Session.down]
          | atom t =>
            rw [call?_list hdeep]
            exact bindings_form p t args _ s.down
  | value v =>
    cases k with
    | nil => cases h
    | cons first k =>
      rw [h.unique (steps_value v first)]
      simp only [call?, Option.toList_none, List.flatMap_nil, List.append_nil]
      cases first with
      | operand op y => rfl
      | operator op a => rfl
      | body es => rw [resume, session_body]
      | builtin apply values es => rw [resume, session_arguments]
      | list p es =>
        unfold resume
        simp only
        split <;> rfl
  | error e =>
    cases k with
    | nil => cases h
    | cons first k =>
      simp only [call?, Option.toList_none, List.flatMap_nil, List.append_nil]
      cases first with
      | list p es => rw [h.unique (steps_error_list e p es)]; rfl
      | _ => rw [h.unique (steps_error e rfl)]

end Calls

/-! From the first binding on. -/

section Bound

variable {ctx : Context} {m n : Machine} {calls : List Call} {name : String} {b : Binding}

theorem lookup?_of_find? {env : Environment} (h : env.bindings.find? (·.isFor name) = some b) :
    env.lookup? name = some (b.value.getD .nil) := by
  rw [Environment.lookup?, h]
  rfl

theorem lookup?_of_mem {env : Environment} (hmem : b ∈ env.bindings.toList)
    (hfor : b.isFor name = true) :
    ∃ v, env.lookup? name = some v := by
  have hsome : (env.bindings.find? (·.isFor name)).isSome := by
    rw [← Array.find?_toList, List.find?_isSome]
    exact ⟨b, hmem, hfor⟩
  obtain ⟨b', hb'⟩ := Option.isSome_iff_exists.1 hsome
  exact ⟨_, lookup?_of_find? hb'⟩

theorem Course.grows (h : Course ctx m calls n) : m.session.Grows n.session := by
  induction h with
  | here => exact .refl _
  | step _ hstep ih => exact ih.trans hstep.moved_grows.2
  | eval e _ _ ih => exact ih
  | define f _ _ ih => exact ih.trans (define_grows f _)
  | bind param value _ _ ih => exact ih.trans (bind_grows param value _)

/-- The first binding stays the first one. -/
theorem Course.find? (h : Course ctx m calls n)
    (hb : m.session.env.bindings.find? (·.isFor name) = some b) :
    n.session.env.bindings.find? (·.isFor name) = some b := by
  rw [← Array.find?_toList] at hb ⊢
  exact h.grows.bindings.find?_eq_some hb

theorem Course.name_ne (h : Course ctx m calls n)
    (hb : m.session.env.bindings.find? (·.isFor name) = some b) :
    ∀ c ∈ calls, c.name ≠ name := by
  induction h with
  | here => simp
  | step hcourse _ ih =>
    intro c hc
    rcases List.mem_append.1 hc with hc | hc
    · exact ih c hc
    · rintro rfl
      have hfree := lookup?_of_call? (Option.mem_toList.1 hc)
      rw [lookup?_of_find? (hcourse.find? hb)] at hfree
      cases hfree
  | eval _ _ _ ih => exact ih
  | define _ _ _ ih => exact ih
  | bind _ _ _ _ ih => exact ih

/-- A call that binds its own name leaves the name bound, and none is called while it is. -/
theorem Course.shadowsItself_once (h : Course ctx m calls n) :
    calls.countP (·.shadowsItself name) ≤ 1 ∧
      (0 < calls.countP (·.shadowsItself name) → ∃ v, n.session.env.lookup? name = some v) := by
  induction h with
  | here => simp
  | @step calls n n' _ hstep ih =>
    have hkept : (∃ v, n.session.env.lookup? name = some v) → ∃ v,
      n'.session.env.lookup? name = some v :=
      fun ⟨v, hv⟩ => ⟨v, hstep.moved_grows.2.begins.lookup hv⟩
    have hbindings := hstep.bindings
    rw [List.countP_append]
    cases hcall : n.call? ctx with
    | none => exact ⟨ih.1, fun hpos => hkept (ih.2 hpos)⟩
    | some c =>
      rw [hcall] at hbindings
      cases hself : c.shadowsItself name with
      | false =>
        have hcount : (some c).toList.countP (·.shadowsItself name) = 0 := by simp [hself]
        rw [hcount]
        exact ⟨ih.1, fun hpos => hkept (ih.2 hpos)⟩
      | true =>
        cases c with
        | builtin _ _ => cases hself
        | function f =>
          simp only [Call.shadowsItself, Bool.and_eq_true, decide_eq_true_eq] at hself
          obtain ⟨rfl, hfor⟩ := hself
          have hfirst : calls.countP (·.shadowsItself f.name) = 0 := by
            refine Nat.eq_zero_of_not_pos fun hpos => ?_
            obtain ⟨v, hv⟩ := ih.2 hpos
            exact nomatch (lookup?_of_call? hcall).symm.trans hv
          have hmem : ⟨f.param, none⟩ ∈ n'.session.env.bindings.toList := by
            rw [hbindings]
            simp [Call.bindings]
          rw [hfirst, Nat.zero_add]
          exact ⟨List.countP_le_length, fun _ => lookup?_of_mem hmem hfor⟩
  | eval _ _ _ ih => exact ih
  | define f _ _ ih => exact ⟨ih.1, fun hpos => ih.2 hpos⟩
  | bind param value _ _ ih =>
    refine ⟨ih.1, fun hpos => ?_⟩
    obtain ⟨v, hv⟩ := ih.2 hpos
    exact ⟨v, (bind_grows param value _).begins.lookup hv⟩

end Bound

/-- A list that is read as a variable: it has the value `v`, unless it is too deep or cannot be
recorded. In no case does it change the environment. -/
structure ReadsVariable (ctx : Context) (s : Session) (v : Value)
    (r : EStateM.Result Halt Session Value) : Prop where
  env : (final r).env = s.env
  answer : answer r = .ok v ∨
    (answer r = .error (.error (.tooDeep ctx.limit)) ∧ ctx.limit ≠ 0 ∧ ctx.limit ≤ s.depth) ∨
    (answer r = .error (.error .sinkFull) ∧ ctx.canRecord s = false)

theorem eval_readsVariable {ctx : Context} {s : Session} {t : Token} {v : Value} (hname : t.IsName)
    (hv : s.env.lookup? t.text = some v) (fuel : Nat) (p : Position) (args : List Expr) :
    ReadsVariable ctx s v (eval ctx (fuel + 1) (.list p (.atom t :: args)) s) := by
  cases hb : ctx.barrier? (fuel + 1) s.depth with
  | some h =>
    rw [eval_list_barrier hb]
    unfold Context.barrier? at hb
    split at hb
    · rename_i hdeep
      obtain rfl := Option.some.inj hb
      simp only [Bool.and_eq_true, decide_eq_true_eq] at hdeep
      exact ⟨rfl, Or.inr (Or.inl ⟨rfl, hdeep⟩)⟩
    · simp at hb
  | none =>
    have hplan : ctx.plan s.down p (.atom t :: args) = .settled s.down (.ok v) := by
      have hv : s.down.env.lookup? t.text = some v := hv
      simp only [Context.plan, hname.operator, if_neg hname.quote, if_neg hname.definition,
        Plan.call, hv]
    have hends := eval_list_ends hb p (.atom t :: args)
    rw [hplan] at hends
    generalize eval ctx (fuel + 1) (.list p (.atom t :: args)) s = r at hends ⊢
    cases hends with
    | value hparts hvalue _ =>
      cases hparts
      cases hvalue
      exact ⟨rfl, Or.inl rfl⟩
    | part hparts => cases hparts
    | form _ hvalue => cases hvalue
    | unrecorded hparts _ hfull =>
      cases hparts
      exact ⟨rfl, Or.inr (Or.inr ⟨rfl, hfull⟩)⟩

/-- Once a name is bound, its first binding stays the first one. No call of that name is begun any
more, and at every later moment a list with that name for its head, however deep it is evaluated, is
read as that variable. A function that binds its own name is called once at most. The course of a
session is that of its actions, where none of them is given up. -/
theorem shadowing_is_permanent (ctx : Context) (name : String) :
    (∀ (m n : Machine) (calls : List Call) (b : Binding),
      m.session.env.bindings.find? (·.isFor name) = some b → Course ctx m calls n →
      (∀ c ∈ calls, c.name ≠ name) ∧ n.session.env.bindings.find? (·.isFor name) = some b ∧
      ∀ (fuel : Nat) (p : Position) (t : Token) (args : List Expr), t.text = name → t.IsName →
        ReadsVariable ctx n.session (b.value.getD .nil)
          (eval ctx (fuel + 1) (.list p (.atom t :: args)) n.session)) ∧
    (∀ (m n : Machine) (calls : List Call), Course ctx m calls n →
      calls.countP (·.shadowsItself name) ≤ 1) ∧
    ∀ (s : Session) (as : List Action), (∀ r ∈ (performAll ctx as s).1, r ≠ .error .exhausted) →
      ∃ calls n, Course ctx (.resting s) calls n ∧ n.AtRest ∧ n.session =
        (performAll ctx as s).2 := by
  refine ⟨?_, fun m n calls hcourse => hcourse.shadowsItself_once.1,
    fun s as hgoes => course_of_performAll rfl rfl hgoes⟩
  intro m n calls b hb hcourse
  refine ⟨hcourse.name_ne hb, hcourse.find? hb, ?_⟩
  rintro fuel p t args rfl hname
  exact eval_readsVariable hname (lookup?_of_find? (hcourse.find? hb)) fuel p args

/-- A function that binds its own name and then uses it. -/
def selfNamed : Function :=
  ⟨"f", some (.atom ⟨.word, "f", ⟨1, 8⟩⟩), [.list ⟨1, 10⟩ [.atom ⟨.word, "f", ⟨1, 11⟩⟩],
    .atom ⟨.numeric, "1", ⟨1, 14⟩⟩]⟩

def selfNamedSession : Session := { Session.start with env := Environment.empty.define selfNamed }

/-- The first call gives 1, the second finds a variable. -/
def callTwice : List Action := [callEndless, callEndless]

def selfNamedCalled : Session := (performAll (.plain "run" "0x1") callTwice selfNamedSession).2

theorem shadowing_is_permanent_selfNamed :
    (performAll (.plain "run" "0x1") callTwice selfNamedSession).1.map
      (fun r => r.toOption.map (·.map Value.display)) =
      [some ["1"], some [":nil"]] ∧
    (∃ calls n, Course (.plain "run" "0x1") (.resting selfNamedSession) calls n ∧ n.session =
      selfNamedCalled ∧
      calls.countP (·.shadowsItself "f") ≤ 1) ∧
    selfNamedCalled.env.bindings.find? (·.isFor "f") = some ⟨selfNamed.param, none⟩ ∧
    (∃ calls n, Course (.plain "run" "0x1") (.resting selfNamedCalled) calls n ∧
      n.session =
        (performAll (.plain "run" "0x1") (.define shadowed :: callTwice) selfNamedCalled).2 ∧
      (∀ c ∈ calls, c.name ≠ "f") ∧
      ReadsVariable (.plain "run" "0x1") n.session .nil
        (eval (.plain "run" "0x1") defaultLimit
          (.list ⟨2, 1⟩ [.atom ⟨.word, "f", ⟨2, 2⟩⟩]) n.session)) := by
  have hshown : (performAll (.plain "run" "0x1") callTwice selfNamedSession).1.map
      (fun r => r.toOption.map (·.map Value.display)) = [some ["1"], some [":nil"]] := by
    decide +kernel
  have hbound : selfNamedCalled.env.bindings.find? (·.isFor "f") =
      some ⟨selfNamed.param, none⟩ := by
    rfl
  have hlimit : 0 < (Context.plain "run" "0x1").limit := by decide
  obtain ⟨hforever, honce, hactions⟩ := shadowing_is_permanent (.plain "run" "0x1") "f"
  obtain ⟨calls, n, hcourse, -, hsession⟩ := hactions selfNamedSession callTwice
    (performAll_ne_exhausted hlimit _ _)
  obtain ⟨calls', n', hcourse', -, hsession'⟩ :=
    hactions selfNamedCalled (.define shadowed :: callTwice)
    (performAll_ne_exhausted hlimit _ _)
  obtain ⟨hnames, -, hreads⟩ := hforever (.resting selfNamedCalled) n' calls' _ hbound hcourse'
  exact ⟨hshown, ⟨calls, n, hcourse, hsession, honce _ _ _ hcourse⟩, hbound,
    calls', n', hcourse', hsession', hnames, hreads 999 _ _ _ rfl (by decide)⟩

end ListLang
