import ListLang.Proofs.Layout

/-! Arguments that no evaluation looks at. A list whose head is neither an operator, a quote, a
definition nor a builtin stands for a variable or calls a function, and both ignore the arguments.
Without them a program has the same values and errors, in the same order. -/

namespace ListLang

open Eval

/-! Leaving the arguments out. -/

/-- What a list does with its arguments, told from its head. -/
inductive ArgumentUse where
  | evaluated
  /-- They are data. -/
  | quoted
  /-- A name and a parameter, which are data, and a body. -/
  | definition
  | ignored
  deriving DecidableEq

def argumentUse (t : Token) : ArgumentUse :=
  if (operatorOf? t).isSome then .evaluated
  else if isQuote t.text then .quoted
  else if t.text = "def" then .definition
  else if (Builtin.defaults.lookup t.text).isSome then .evaluated
  else .ignored

/-- What is left of the arguments, if `pruned` is left of each of them when they are evaluated. -/
def ArgumentUse.keep (args pruned : List Expr) : ArgumentUse → List Expr
  | evaluated => pruned
  | quoted => args
  | definition => args.take 2 ++ pruned.drop 2
  | ignored => []

namespace Expr

mutual

/-- The expression without arguments that are ignored. -/
def prune : Expr → Expr
  | atom t => atom t
  | list p items => list p (pruneItems items)

def pruneItems : List Expr → List Expr
  | [] => []
  | list p es :: args => list p es :: args
  | atom t :: args => atom t :: (argumentUse t).keep args (pruneAll args)

def pruneAll : List Expr → List Expr
  | [] => []
  | e :: es => prune e :: pruneAll es

end

theorem pruneAll_eq_map (es : List Expr) : pruneAll es = es.map prune := by
  induction es with
  | nil => rfl
  | cons e es ih => rw [pruneAll, ih, List.map_cons]

/-- Nothing that is evaluated in the expression has an argument that is ignored. -/
inductive Spare : Expr → Prop where
  | atom (t : Token) : Spare (atom t)
  | empty (p : Position) : Spare (list p [])
  | uncallable (p q : Position) (es args : List Expr) : Spare (list p (list q es :: args))
  | evaluated {p : Position} {t : Token} {args : List Expr} : argumentUse t = .evaluated →
      (∀ e ∈ args, Spare e) → Spare (list p (.atom t :: args))
  | quoted {p : Position} {t : Token} {args : List Expr} : argumentUse t = .quoted →
      Spare (list p (.atom t :: args))
  | definition {p : Position} {t : Token} {args : List Expr} : argumentUse t = .definition →
      (∀ e ∈ args.drop 2, Spare e) → Spare (list p (.atom t :: args))
  | ignored {p : Position} {t : Token} : argumentUse t = .ignored → Spare (list p [.atom t])

mutual

theorem spare_prune : ∀ e : Expr, e.prune.Spare
  | .atom t => .atom t
  | list p items => spare_pruneItems p items

theorem spare_pruneItems (p : Position) : ∀ items : List Expr, (list p (pruneItems items)).Spare
  | [] => .empty p
  | list q es :: args => .uncallable p q es args
  | .atom t :: args => by
    have hargs := spare_pruneAll args
    rw [pruneItems]
    cases huse : argumentUse t with
    | evaluated => exact .evaluated huse hargs
    | quoted => exact .quoted huse
    | definition =>
      refine .definition huse fun e he => hargs e ?_
      rw [ArgumentUse.keep, List.drop_append, List.drop_take, Nat.sub_self, List.take_zero,
        List.nil_append] at he
      exact List.mem_of_mem_drop (List.mem_of_mem_drop he)
    | ignored => exact .ignored huse

theorem spare_pruneAll : ∀ es : List Expr, ∀ e ∈ pruneAll es, e.Spare
  | [], _, he => absurd he List.not_mem_nil
  | e :: es, _, he => by
    rcases List.mem_cons.1 he with rfl | he
    · exact spare_prune e
    · exact spare_pruneAll es _ he

end

end Expr

def Function.prune (f : Function) : Function := { f with body := Expr.pruneAll f.body }

def Value.prune : Value → Value
  | .function f => .function f.prune
  | v => v

section Values

variable (v : Value)

theorem Value.type_prune : v.prune.type = v.type := by cases v <;> rfl

theorem Value.display_prune : v.prune.display = v.display := by cases v <;> rfl

theorem Value.raw_prune : v.prune.raw = v.raw := by cases v <;> rfl

theorem Value.number?_prune : v.prune.number? = v.number? := by cases v <;> rfl

theorem Value.shown_prune : v.prune.shown = v.shown := by
  rw [Value.shown, Value.shown, type_prune, display_prune]

end Values

theorem Number.prune_toValue (n : Number) : n.toValue.prune = n.toValue := by cases n <;> rfl

theorem Value.prune_ofLiteral (l : Literal) : (Value.ofLiteral l).prune = .ofLiteral l := by
  cases l <;> rfl

/-- The second value is the first one without arguments that are ignored. -/
def Value.PrunesTo (v w : Value) : Prop := w = v.prune

theorem apply_prune (op : Operator) {a a' b b' : Value} (ha : a.PrunesTo a') (hb : b.PrunesTo b') :
    ExceptRel Value.PrunesTo (op.apply a b) (op.apply a' b') := by
  rw [ha, hb]
  unfold Operator.apply
  rw [Value.number?_prune, Value.number?_prune, Value.display_prune, Value.display_prune]
  split
  · rfl
  · rfl
  · split
    · exact (Number.prune_toValue _).symm
    · rfl

theorem format_prune :
    ∃ apply, Builtin.format = .eager apply ∧ ∀ vs ws, List.Forall₂ Value.PrunesTo vs ws →
    ExceptRel Value.PrunesTo (apply vs) (apply ws) := by
  refine ⟨_, rfl, fun vs ws h => ?_⟩
  cases h with
  | nil => rfl
  | @cons v w vs ws hv hvs =>
    have hraw : vs.map (fun v => v.raw.toList) = ws.map fun v => v.raw.toList :=
      map_eq_of_forall₂ (fun v w hv => by rw [show w = v.prune from hv, Value.raw_prune]) hvs
    obtain rfl : w = v.prune := hv
    cases v with
    | text template =>
      simp only [Value.prune, hraw]
      exact rfl
    | _ => exact rfl

/-! Sessions of the two runs. -/

/-- What a record tells of the value. -/
def TraceRecord.outcome (r : TraceRecord) : String × ValueType := (r.value, r.type)

/-- Sessions whose functions differ in ignored arguments only. No variable has a value. -/
structure Session.Pruned (s t : Session) : Prop where
  depth : s.depth = t.depth
  journal : s.journal = t.journal
  trace : s.trace.toList.map TraceRecord.outcome = t.trace.toList.map TraceRecord.outcome
  functions : t.env.functions = s.env.functions.map Function.prune
  bindings : t.env.bindings = s.env.bindings
  unset : ∀ b ∈ s.env.bindings.toList, b.value = none

namespace Session.Pruned

variable {s t : Session} (h : s.Pruned t)
include h

theorem written : s.trace.size = t.trace.size := by
  simpa using congrArg List.length h.trace

theorem lookup (name : String) : t.env.lookup? name = s.env.lookup? name := by
  rw [Environment.lookup?, Environment.lookup?, h.bindings]

theorem eq_nil_of_lookup {name : String} {v : Value} (hv : s.env.lookup? name = some v) :
    v = .nil := by
  rw [Environment.lookup?, ← Array.find?_toList] at hv
  obtain ⟨b, hb, rfl⟩ := Option.map_eq_some_iff.1 hv
  rw [h.unset b (List.mem_of_find?_eq_some hb)]
  rfl

theorem function (name : String) :
    t.env.function? name = (s.env.function? name).map Function.prune := by
  rw [Environment.function?, Environment.function?, h.functions, Array.find?_map]
  rfl

theorem noting (ctx : Context) (event : JournalEvent) (f : Function) :
    (s.noting ctx event f).Pruned (t.noting ctx event f.prune) := by
  have hdisplay : f.prune.display = f.display := rfl
  refine ⟨h.depth, ?_, h.trace, h.functions, h.bindings, h.unset⟩
  simp only [Session.noting, h.depth, h.journal, hdisplay]

theorem define (f : Function) :
    Session.Pruned { s with env := s.env.define f } { t with env := t.env.define f.prune } := by
  refine ⟨h.depth, h.journal, h.trace, ?_, h.bindings, h.unset⟩
  simp [Environment.define, h.functions]

theorem bind (param : Option Expr) :
    Session.Pruned { s with env := s.env.bind param none }
      { t with env := t.env.bind param none } := by
  refine ⟨h.depth, h.journal, h.trace, h.functions, ?_, ?_⟩
  · simp [Environment.bind, h.bindings]
  · intro b hb
    simp only [Environment.bind, Array.toList_push, List.mem_append, List.mem_singleton] at hb
    rcases hb with hb | rfl
    · exact h.unset b hb
    · rfl

theorem recording (ctx : Context) (e : Expr) (v : Value) :
    (s.recording ctx (.of e v)).Pruned (t.recording ctx (.of e.prune v.prune)) := by
  have houtcome : (TraceRecord.of e v).outcome = (TraceRecord.of e.prune v.prune).outcome := by
    simp only [TraceRecord.of, TraceRecord.outcome, Value.display_prune, Value.type_prune]
  refine ⟨h.depth, h.journal, ?_, h.functions, h.bindings, h.unset⟩
  unfold Session.recording
  split
  · simp [h.trace, houtcome]
  · exact h.trace

end Session.Pruned

/-- A run beside the run without ignored arguments; neither is cut. -/
def pruneLink : Link where
  expr e f := f = e.prune
  site := Eq
  session := Session.Pruned
  cut _ _ _ := False

theorem pruneLink_nests : pruneLink.Nests pruneLink where
  down h := ⟨congrArg (· + 1) h.depth, h.journal, h.trace, h.functions, h.bindings, h.unset⟩
  up h := ⟨congrArg (· - 1) h.depth, h.journal, h.trace, h.functions, h.bindings, h.unset⟩
  cut h := h

theorem forall₂_pruneAll (es : List Expr) : List.Forall₂ pruneLink.expr es (Expr.pruneAll es) := by
  rw [Expr.pruneAll_eq_map]
  exact List.forall₂_map_right_iff.2 (List.forall₂_same.2 fun _ _ => rfl)

/-! The two evaluations. -/

section Evaluator

variable {ctx : Context} {ev ew : Expr → Eval Value}
    (hev : pruneLink.Pairs pruneLink.expr Value.PrunesTo ev ew)

theorem pruneLink_record (e : Expr) (v : Value) :
    pruneLink.Follows Eq (record ctx e v) (record ctx e.prune v.prune) := by
  intro s t hst
  have hroom : ctx.canRecord s = ctx.canRecord t := by
    rw [Context.canRecord, Context.canRecord, hst.written]
  rw [record_run, record_run, hroom]
  split
  · exact ⟨rfl, hst.recording ctx e v⟩
  · exact Or.inr ⟨t, rfl, hst⟩

theorem evalAtom_prune (a : Token) :
    pruneLink.Follows Value.PrunesTo (evalAtom a) (evalAtom a) := by
  unfold evalAtom
  split
  · exact Link.follows_pure (Value.prune_ofLiteral _).symm
  · exact Link.follows_fail _

theorem evalDefinition_prune (args : List Expr) :
    pruneLink.Follows Value.PrunesTo (evalDefinition ctx args)
      (evalDefinition ctx (args.take 2 ++ (Expr.pruneAll args).drop 2)) := by
  cases args with
  | nil => exact Link.follows_fail _
  | cons name args =>
    cases args with
    | nil =>
      have hsame : [name].take 2 ++ (Expr.pruneAll [name]).drop 2 = [name] := rfl
      rw [hsame, evalDefinition_singleton]
      exact Link.follows_fail _
    | cons param body =>
      have hsplit : (name :: param :: body).take 2 ++
        (Expr.pruneAll (name :: param :: body)).drop 2 =
          name :: param :: Expr.pruneAll body := rfl
      rw [hsplit]
      cases name with
      | list p es => exact Link.follows_fail _
      | atom name =>
        have hdefine : pruneLink.Follows Eq (addFunction ctx ⟨name.text, some param, body⟩)
            (addFunction ctx (Function.prune ⟨name.text, some param, body⟩)) := by
          intro s t hst
          rw [addFunction_run, addFunction_run]
          exact ⟨rfl, (hst.define _).noting ctx .define _⟩
        exact hdefine.bind (fun _ _ _ => Link.follows_pure rfl) fun _ _ _ h => h

include hev

theorem evalFunction_prune (f : Function) :
    pruneLink.Follows Value.PrunesTo (evalFunction ctx ev f) (evalFunction ctx ew f.prune) := by
  rw [evalFunction_eq, evalFunction_eq]
  have hcall : pruneLink.Follows Eq (addCall ctx f) (addCall ctx f.prune) := by
    intro s t hst
    rw [addCall_run, addCall_run]
    exact ⟨rfl, (hst.bind f.param).noting ctx .call f⟩
  exact hcall.bind (fun _ _ _ => hev.evalBody ctx rfl (forall₂_pruneAll f.body)) fun _ _ _ h => h

/-- Only a builtin looks at the arguments. -/
theorem evalCall_prune (hbuiltins : ctx.builtins = Builtin.defaults) (name : String)
    {args args' : List Expr}
    (hargs : (Builtin.defaults.lookup name).isSome = true → args' = Expr.pruneAll args) :
    pruneLink.Follows Value.PrunesTo (evalCall ctx ev name args) (evalCall ctx ew name args') := by
  intro s t hst
  have hlookup := hst.lookup name
  cases hl : s.env.lookup? name with
  | some v =>
    -- a variable is nil, with nothing in it to leave out
    rw [evalCall_of_lookup hl, evalCall_of_lookup (hlookup.trans hl), hst.eq_nil_of_lookup hl]
    exact ⟨rfl, hst⟩
  | none =>
    have hfunction := hst.function name
    cases hf : s.env.function? name with
    | some f =>
      rw [hf] at hfunction
      rw [evalCall_of_function hl hf, evalCall_of_function (hlookup.trans hl) hfunction]
      exact evalFunction_prune hev f s t hst
    | none =>
      rw [hf] at hfunction
      cases hb : ctx.builtin? name with
      | some b =>
        have hdefault : (Builtin.defaults.lookup name).isSome = true := by
          rw [← hbuiltins]
          exact Option.isSome_iff_exists.2 ⟨b, hb⟩
        obtain ⟨apply, hformat, happly⟩ := format_prune
        rw [evalCall_of_builtin hl hf hb, evalCall_of_builtin (hlookup.trans hl) hfunction hb,
          hargs hdefault, builtin?_of_defaults hbuiltins hb, hformat]
        have heach := hev.evalEach ctx (forall₂_pruneAll args)
        exact heach.bind (fun vs ws hvs => Link.follows_ofExcept (happly vs ws hvs))
          (fun _ _ _ h => h) s t hst
      | none =>
        rw [evalCall_of_unbound hl hf hb, evalCall_of_unbound (hlookup.trans hl) hfunction hb]
        exact Or.inr ⟨t, rfl, hst⟩

theorem evalList_prune (hbuiltins : ctx.builtins = Builtin.defaults) (p : Position)
    (items : List Expr) :
    pruneLink.Follows Value.PrunesTo (evalList ctx ev p items)
      (evalList ctx ew p (Expr.pruneItems items)) := by
  cases items with
  | nil => exact Link.follows_pure rfl
  | cons head args =>
    cases head with
    | list q es => exact Link.follows_fail _
    | atom t =>
      rw [Expr.pruneItems]
      cases hop : operatorOf? t with
      | some op =>
        have huse : argumentUse t = .evaluated := by rw [argumentUse, if_pos (by simp [hop])]
        rw [huse, evalList_of_operator _ hop, evalList_of_operator _ hop]
        exact hev.evalArithmetic ctx (apply_prune op) (forall₂_pruneAll args)
      | none =>
        have hnone : ¬(operatorOf? t).isSome = true := by simp [hop]
        by_cases hquote : isQuote t.text = true
        · have huse : argumentUse t = .quoted := by rw [argumentUse, if_neg hnone, if_pos hquote]
          rw [huse, evalList_of_quote _ hop hquote, evalList_of_quote _ hop hquote]
          exact Link.follows_pure rfl
        · by_cases hdef : t.text = "def"
          · have huse : argumentUse t = .definition := by
              rw [argumentUse, if_neg hnone, if_neg hquote, if_pos hdef]
            rw [huse, evalList_of_definition _ hop hquote hdef,
              evalList_of_definition _ hop hquote hdef]
            exact evalDefinition_prune args
          · rw [evalList_of_call _ hop hquote hdef, evalList_of_call _ hop hquote hdef]
            refine evalCall_prune hev hbuiltins t.text fun hname => ?_
            rw [argumentUse, if_neg hnone, if_neg hquote, if_neg hdef, if_pos hname]
            rfl

theorem recorded_prune (hbuiltins : ctx.builtins = Builtin.defaults) (p : Position)
    (items : List Expr) :
    pruneLink.Follows Value.PrunesTo (recorded ctx ev p items)
      (recorded ctx ew p (Expr.pruneItems items)) := by
  refine (evalList_prune hev hbuiltins p items).bind (fun v w hvw => ?_) fun _ _ _ h => h
  obtain rfl : w = v.prune := hvw
  exact (pruneLink_record (.list p items) v).bind (fun _ _ _ => Link.follows_pure rfl)
    fun _ _ _ h => h

end Evaluator

theorem eval_prune {ctx : Context} (hbuiltins : ctx.builtins = Builtin.defaults) (fuel : Nat) :
    pruneLink.Pairs pruneLink.expr Value.PrunesTo (eval ctx fuel) (eval ctx fuel) := by
  refine Link.pairs_eval (L := pruneLink) rfl (fun hst => hst.depth) pruneLink_nests
    (fun h _ => h) ?_ ?_ fuel
  · rintro a _ rfl
    exact ⟨a, rfl, evalAtom_prune a⟩
  · rintro p es _ rfl
    exact ⟨p, Expr.pruneItems es, rfl, fun ev ew hev => recorded_prune hev hbuiltins p es⟩

/-! What can be seen of the two runs. -/

/-- The end of an evaluation without the texts of what was evaluated. -/
structure Effect where
  result : Except Halt (List (ValueType × String))
  trace : List (String × ValueType)
  journal : List JournalEntry
  bindings : List Binding
  functions : List (String × Option Expr)

def Eval.effect (r : EStateM.Result Halt Session (List Value)) : Effect where
  result := (answer r).map (·.map Value.shown)
  trace := (final r).trace.toList.map TraceRecord.outcome
  journal := (final r).journal.toList
  bindings := (final r).env.bindings.toList
  functions := (final r).env.functions.toList.map fun f => (f.name, f.param)

theorem Session.Pruned.start : Session.Pruned .start .start := by
  refine ⟨rfl, rfl, rfl, ?_, rfl, fun b hb => ?_⟩
  · simp [Session.start, Environment.empty]
  · cases hb

theorem Link.Ends.effect_eq {r q : EStateM.Result Halt Session (List Value)}
    (h : pruneLink.Ends (List.Forall₂ Value.PrunesTo) r q) : effect q = effect r := by
  have hends : (final r).Pruned (final q) ∧
      (answer q).map (·.map Value.shown) = (answer r).map (·.map Value.shown) := by
    rcases h.cases with ⟨vs, ws, s, t, rfl, rfl, hvs, hst⟩ | ⟨e, s, t, rfl, rfl, hst⟩ |
      ⟨e, s, -, hcut⟩
    · have hshown : vs.map Value.shown = ws.map Value.shown :=
        map_eq_of_forall₂ (fun v w hv => by rw [show w = v.prune from hv, Value.shown_prune]) hvs
      exact ⟨hst, by simp only [answer, Except.map, hshown]⟩
    · exact ⟨hst, rfl⟩
    · exact hcut.elim
  obtain ⟨hst, hresult⟩ := hends
  have hfunctions : (final q).env.functions.toList.map (fun f => (f.name, f.param)) =
      (final r).env.functions.toList.map fun f => (f.name, f.param) := by
    rw [hst.functions, Array.toList_map, List.map_map]
    rfl
  simp only [effect, hresult, hst.trace, hst.journal, hst.bindings, hfunctions]

/-- No argument that is ignored is left in a pruned program. It has the same values or the same
error, the same records but for the expressions in them, the same journal, the same variables, and
functions with the same names and parameters. -/
theorem dead_arguments_erasable (ctx : Context) (hbuiltins : ctx.builtins = Builtin.defaults)
    (es : List Expr) :
    (∀ e ∈ Expr.pruneAll es, e.Spare) ∧
    effect (evalAll ctx (Expr.pruneAll es) .start) = effect (evalAll ctx es .start) := by
  have hfollows := (eval_prune hbuiltins ctx.fuel).evalEach ctx (forall₂_pruneAll es)
  exact ⟨Expr.spare_pruneAll es, (hfollows .start .start .start).effect_eq⟩

/-- Functions and a variable called with arguments, within a sum, a builtin and a body. -/
def wasteful : List Expr :=
  match read "(def f x (format \"\x7b\x7d\" (g (h 7)))) (def g y (+ 1 2)) (f 1 (h 2)) (x (y 1)) (quote (f 1))".toList with
  | .ok es => es
  | .error _ => []

theorem dead_arguments_erasable_wasteful :
    (Context.plain "run" "0x1").builtins = Builtin.defaults ∧
    Expr.encodeAll (Expr.pruneAll wasteful) =
      "(def f x (format \"\x7b\x7d\" (g))) (def g y (+ 1 2)) (f) (x) (quote (f 1))" ∧
    failure? (evalAll (.plain "run" "0x1") wasteful .start) = none ∧
    effect (evalAll (.plain "run" "0x1") (Expr.pruneAll wasteful) .start) =
      effect (evalAll (.plain "run" "0x1") wasteful .start) := by
  have hpruned : Expr.encodeAll (Expr.pruneAll wasteful) =
      "(def f x (format \"\x7b\x7d\" (g))) (def g y (+ 1 2)) (f) (x) (quote (f 1))" := by
        decide +kernel
  have hends : failure? (evalAll (.plain "run" "0x1") wasteful .start) = none := by decide +kernel
  exact ⟨rfl, hpruned, hends, (dead_arguments_erasable _ rfl wasteful).2⟩

end ListLang
