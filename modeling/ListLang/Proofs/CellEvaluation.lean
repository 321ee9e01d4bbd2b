import ListLang.Proofs.Cells
import ListLang.Proofs.Growth

/-! Evaluation with cells in the place of values, where every index, every cut and every look at a
content can come to a fault. With the builtins of every run it is the evaluation of the values that
the cells stand for: it leaves the session that stands for the other, and ends with the same value
or the same error. -/

namespace ListLang

structure CellBinding where
  param : Option Expr
  value : Option Cell

def CellBinding.isFor (b : CellBinding) (name : String) : Bool :=
  match b.param with
  | some e => e.isNamed name
  | none => false

/-- A session whose variables hold cells. -/
structure CellSession where
  functions : Array Function
  bindings : Array CellBinding
  depth : Nat
  trace : Array TraceRecord
  journal : Array JournalEntry

namespace CellSession

def lookup? (s : CellSession) (name : String) : Option Cell :=
  (s.bindings.find? (·.isFor name)).map fun b => b.value.getD (.ofValue .nil)

def function? (s : CellSession) (name : String) : Option Function :=
  s.functions.find? (·.name = name)

end CellSession

abbrev CellEval := EStateM Stop CellSession

namespace CellEval

variable {α : Type}

def ofExcept : Except Stop α → CellEval α
  | .ok a => pure a
  | .error stop => throw stop

def fail (e : EvalError) : CellEval α := throw (.halt (.error e))

def enter (ctx : Context) : CellEval Unit := fun s =>
  if ctx.limit ≠ 0 && ctx.limit ≤ s.depth then .error (.halt (.error (.tooDeep ctx.limit))) s
  else .ok () { s with depth := s.depth + 1 }

def leaving (body : CellEval α) : CellEval α := fun s =>
  match body s with
  | .ok a s => .ok a { s with depth := s.depth - 1 }
  | .error stop s => .error stop { s with depth := s.depth - 1 }

def write (t : Tracer) (r : TraceRecord) : CellEval Unit := fun s =>
  if t.hasRoom s.trace.size then .ok () { s with trace := s.trace.push r }
  else .error (.halt (.error .sinkFull)) s

def record (ctx : Context) (e : Expr) (c : Cell) : CellEval Unit :=
  match ctx.tracer with
  | none => pure ()
  | some t => do
    let r ← ofExcept (Cell.record e c)
    write t r

def note (ctx : Context) (event : JournalEvent) (f : Function) : CellEval Unit := fun s =>
  if ctx.journaling then .ok () { s with journal := s.journal.push ⟨s.depth, event, f.display⟩ }
  else .ok () s

def define (f : Function) : CellEval Unit :=
  fun s => .ok () { s with functions := s.functions.push f }

def bind (param : Option Expr) (value : Option Cell) : CellEval Unit := fun s =>
  .ok () { s with bindings := s.bindings.push ⟨param, value⟩ }

/-! The forms. Each takes the whole list that it evaluates. -/

def evalEach (ev : Expr → CellEval Cell) : List Expr → CellEval (List Cell)
  | [] => pure []
  | e :: es => do
    let c ← ev e
    let cs ← evalEach ev es
    pure (c :: cs)

def evalBody (ev : Expr → CellEval Cell) (last : Cell) : List Expr → CellEval Cell
  | [] => pure last
  | e :: es => do
    let c ← ev e
    evalBody ev c es

def evalArithmetic (ev : Expr → CellEval Cell) (op : Operator) (items : List Expr) :
    CellEval Cell := do
  let args ← ofExcept (Cell.cut items 1 items.length)
  if args.length = 2 then
    let x ← ofExcept (Cell.index args 0)
    let a ← ev x
    let y ← ofExcept (Cell.index args 1)
    let b ← ev y
    ofExcept (Cell.apply op a b)
  else fail (.operandCount op args.length)

def evalDefinition (ctx : Context) (items : List Expr) : CellEval Cell := do
  if items.length < 3 then fail .incompleteDefinition
  else match ← ofExcept (Cell.index items 1) with
    | .list p es => fail (.nameNotAtom (Expr.list p es).encode)
    | .atom name => do
      let param ← ofExcept (Cell.index items 2)
      let body ← ofExcept (Cell.cut items 3 items.length)
      let f : Function := ⟨name.text, some param, body⟩
      define f
      note ctx .define f
      pure (.ofValue (.function f))

def evalFormat (ev : Expr → CellEval Cell) (args : List Expr) : CellEval Cell := do
  if args.length < 1 then fail .missingTemplate
  else do
    let values ← evalEach ev args
    ofExcept (Cell.format values)

/-- The builtins of every run. -/
def builtins : List (String × ((Expr → CellEval Cell) → List Expr → CellEval Cell)) :=
  [("format", evalFormat)]

def evalFunction (ctx : Context) (ev : Expr → CellEval Cell) (f : Function) : CellEval Cell := do
  bind f.param none
  note ctx .call f
  evalBody ev (.ofValue .nil) f.body

def evalCall (ctx : Context) (ev : Expr → CellEval Cell) (name : String) (items : List Expr) :
    CellEval Cell := do
  let s ← get
  match s.lookup? name with
  | some c => pure c
  | none =>
    match s.function? name with
    | some f => evalFunction ctx ev f
    | none =>
      match builtins.lookup name with
      | some b => do
        let args ← ofExcept (Cell.cut items 1 items.length)
        b ev args
      | none => fail (.unbound name)

def evalList (ctx : Context) (ev : Expr → CellEval Cell) (opening : Position) (items : List Expr) :
    CellEval Cell :=
  match items with
  | [] => pure (.ofValue .nil)
  | .list p es :: _ => fail (.notCallable (Expr.list p es).encode)
  | .atom t :: args =>
    match operatorOf? t with
    | some op => evalArithmetic ev op (.atom t :: args)
    | none =>
      if isQuote t.text then pure (.ofValue (.list (.list opening (.atom t :: args))))
      else if t.text = "def" then evalDefinition ctx (.atom t :: args)
      else evalCall ctx ev t.text (.atom t :: args)

def eval (ctx : Context) (fuel : Nat) (e : Expr) : CellEval Cell :=
  match e with
  | .atom t => ofExcept (Cell.literal t)
  | .list opening items => do
    enter ctx
    leaving (match fuel with
      | 0 => throw (.halt .exhausted)
      | fuel + 1 => do
        let c ← evalList ctx (eval ctx fuel) opening items
        record ctx (.list opening items) c
        pure c)
termination_by structural fuel

def evalAll (ctx : Context) (es : List Expr) : CellEval (List Cell) :=
  evalEach (eval ctx ctx.fuel) es

end CellEval

inductive CellRunError where
  | read (e : ReadError)
  | stop (stop : Stop)

structure CellOutcome where
  result : Except CellRunError (List Cell)
  session : CellSession

def CellEval.runIn (ctx : Context) (s : CellSession) (text : List Char) : CellOutcome :=
  match read text with
  | .error e => ⟨.error (.read e), s⟩
  | .ok es =>
    match evalAll ctx es s with
    | .ok cs s => ⟨.ok cs, s⟩
    | .error stop s => ⟨.error (.stop stop), s⟩

/-! Sessions that stand for others. -/

def CellSession.of (s : Session) : CellSession where
  functions := s.env.functions
  bindings := s.env.bindings.map fun b => ⟨b.param, b.value.map Cell.ofValue⟩
  depth := s.depth
  trace := s.trace
  journal := s.journal

theorem CellSession.lookup?_of (s : Session) (name : String) :
    (of s).lookup? name = (s.env.lookup? name).map Cell.ofValue := by
  have hvalue : ∀ v : Option Value, (v.map Cell.ofValue).getD (.ofValue .nil) =
      Cell.ofValue (v.getD .nil) := by
    intro v
    cases v <;> rfl
  simp only [lookup?, of, Environment.lookup?, Array.find?_map, Option.map_map]
  congr 1
  funext b
  exact hvalue b.value

/-- A computation on cells ends as one on values does. -/
def Eval.mirror {α β : Type} (f : α → β) :
    EStateM.Result Halt Session α → EStateM.Result Stop CellSession β
  | .ok a s => .ok (f a) (.of s)
  | .error h s => .error (.halt h) (.of s)

/-- In every session it does. -/
def Mirrors {α β : Type} (f : α → β) (m : CellEval β) (n : Eval α) : Prop :=
  ∀ s, m (.of s) = Eval.mirror f (n s)

namespace Mirrors

variable {α β γ δ : Type} {f : α → β} {g : γ → δ}

theorem pure (f : α → β) (a : α) : Mirrors f (pure (f a)) (pure a) := fun _ => rfl

theorem fail (f : α → β) (e : EvalError) : Mirrors f (CellEval.fail e) (Eval.fail e) := fun _ => rfl

theorem ofExcept (r : Except EvalError Value) :
    Mirrors Cell.ofValue (CellEval.ofExcept (Cell.ofResult r)) (Eval.ofExcept r) := by
  cases r with
  | ok v => exact pure Cell.ofValue v
  | error e => exact fail Cell.ofValue e

theorem ofExcept_ok_bind (a : α) (k : α → CellEval β) : (CellEval.ofExcept (.ok a) >>= k) = k a :=
  rfl

theorem bind {m : CellEval β} {n : Eval α} {k : β → CellEval δ} {l : α → Eval γ}
    (hm : Mirrors f m n) (hk : ∀ a, Mirrors g (k (f a)) (l a)) : Mirrors g (m >>= k) (n >>= l) := by
  intro s
  have hs := hm s
  cases h : n s with
  | ok a t =>
    rw [h] at hs
    rw [Eval.bind_of_ok h, ← hk a t]
    simp [Bind.bind, EStateM.bind, hs, Eval.mirror]
  | error e t =>
    rw [h] at hs
    rw [Eval.bind_of_error h]
    simp [Bind.bind, EStateM.bind, hs, Eval.mirror]

section Steps

variable {ctx : Context}

theorem note (event : JournalEvent) (f : Function) :
    Mirrors id (CellEval.note ctx event f) (Eval.note ctx event f) := by
  intro s
  unfold CellEval.note Eval.note
  split <;> rfl

theorem define (f : Function) : Mirrors id (CellEval.define f) (Eval.define f) := fun _ => rfl

theorem bindNone (param : Option Expr) :
    Mirrors id (CellEval.bind param none) (Eval.bind param none) := by
  intro s
  simp [CellEval.bind, Eval.bind, Eval.mirror, CellSession.of, Environment.bind]

theorem record (e : Expr) (v : Value) :
    Mirrors id (CellEval.record ctx e (.ofValue v)) (Eval.record ctx e v) := by
  unfold CellEval.record Eval.record
  cases ctx.tracer with
  | none => exact fun _ => rfl
  | some t =>
    simp only [Cell.record_ofValue, ofExcept_ok_bind]
    intro s
    unfold CellEval.write
    cases hroom : t.hasRoom s.trace.size <;> simp [CellSession.of, Eval.mirror, hroom]

theorem leaving {m : CellEval β} {n : Eval α} (hm : Mirrors f m n) :
    Mirrors f (CellEval.leaving m) (Eval.leaving n) := by
  intro s
  unfold CellEval.leaving Eval.leaving
  rw [hm s]
  cases n s <;> rfl

theorem enter : Mirrors id (CellEval.enter ctx) (Eval.enter ctx) := by
  intro s
  unfold CellEval.enter Eval.enter
  have hdepth : (CellSession.of s).depth = s.depth := rfl
  rw [hdepth]
  split <;> rfl

theorem get {k : CellSession → CellEval β} {l : Session → Eval α}
    (h : ∀ s, Mirrors f (k (.of s)) (l s)) :
    Mirrors f (get >>= k) (get >>= l) := fun s => h s s

theorem builtins_lookup (name : String) :
    (CellEval.builtins.lookup name = some CellEval.evalFormat ∧ Builtin.defaults.lookup name =
      some .format) ∨
      CellEval.builtins.lookup name = none ∧ Builtin.defaults.lookup name = none := by
  unfold CellEval.builtins Builtin.defaults
  by_cases h : name = "format"
  · subst h
    exact Or.inl ⟨rfl, rfl⟩
  · exact Or.inr ⟨List.lookup_eq_none_iff.2 (by simp [h]), List.lookup_eq_none_iff.2 (by simp [h])⟩

theorem evalAtom (t : Token) :
    Mirrors Cell.ofValue (CellEval.ofExcept (Cell.literal t)) (evalAtom t) := by
  rw [Cell.literal_eq, ListLang.evalAtom]
  cases (Expr.atom t).literal with
  | ok l => exact pure Cell.ofValue (.ofLiteral l)
  | error cause => exact fail Cell.ofValue (.invalidLiteral cause)

theorem evalDefinition (head : Expr) (args : List Expr) :
    Mirrors Cell.ofValue (CellEval.evalDefinition ctx (head :: args))
      (evalDefinition ctx args) := by
  rcases args with _ | ⟨name, _ | ⟨param, body⟩⟩
  · exact fail Cell.ofValue _
  · rw [evalDefinition_singleton]
    exact fail Cell.ofValue _
  · have hlong : ¬(head :: name :: param :: body).length < 3 := by simp
    have hname : Cell.index (head :: name :: param :: body) 1 = .ok name := rfl
    have hparam : Cell.index (head :: name :: param :: body) 2 = .ok param := rfl
    have hbody : Cell.cut (head :: name :: param :: body) 3 (head :: name :: param :: body).length =
      .ok body :=
      Cell.cut_from (by simp)
    rw [CellEval.evalDefinition, if_neg hlong, hname, ofExcept_ok_bind]
    cases name with
    | list p es => exact fail Cell.ofValue _
    | atom name =>
      simp only [hparam, hbody, ofExcept_ok_bind]
      exact bind (define _) fun _ => bind (note _ _) fun _ => pure Cell.ofValue (.function _)

end Steps

section Forms

variable {ctx : Context} {ev' : Expr → CellEval Cell} {ev : Expr → Eval Value}
  (hev : ∀ e, Mirrors Cell.ofValue (ev' e) (ev e))
include hev

theorem evalEach (es : List Expr) :
    Mirrors (List.map Cell.ofValue) (CellEval.evalEach ev' es) (evalEach ev es) := by
  induction es with
  | nil => exact pure (List.map Cell.ofValue) []
  | cons e es ih =>
    exact bind (hev e) fun v => bind ih fun vs => pure (List.map Cell.ofValue) (v :: vs)

theorem evalBody (last : Value) (es : List Expr) :
    Mirrors Cell.ofValue (CellEval.evalBody ev' (.ofValue last) es) (evalBody ev last es) := by
  induction es generalizing last with
  | nil => exact pure Cell.ofValue last
  | cons e es ih => exact bind (hev e) fun v => ih v

theorem evalArithmetic (op : Operator) (head : Expr) (args : List Expr) :
    Mirrors Cell.ofValue (CellEval.evalArithmetic ev' op (head :: args))
      (evalArithmetic ev op args) := by
  rw [CellEval.evalArithmetic, Cell.cut_tail, ofExcept_ok_bind]
  rcases args with _ | ⟨x, _ | ⟨y, _ | ⟨z, args⟩⟩⟩
  · exact fail Cell.ofValue _
  · exact fail Cell.ofValue _
  · have hx : Cell.index [x, y] 0 = .ok x := rfl
    have hy : Cell.index [x, y] 1 = .ok y := rfl
    rw [if_pos (show [x, y].length = 2 from rfl), hx, hy, ofExcept_ok_bind]
    refine bind (hev x) fun a => ?_
    rw [ofExcept_ok_bind]
    refine bind (hev y) fun b => ?_
    rw [Cell.apply_ofValue]
    exact ofExcept _
  · exact fail Cell.ofValue _

theorem evalFormat {apply : List Value → Except EvalError Value}
    (happly : Builtin.format = .eager apply) (args : List Expr) :
    Mirrors Cell.ofValue (CellEval.evalFormat ev' args) (do
      let values ← ListLang.evalEach ev args
      Eval.ofExcept (apply values)) := by
  cases args with
  | nil =>
    cases happly
    exact fail Cell.ofValue _
  | cons e es =>
    have hsome : ¬(e :: es).length < 1 := by simp
    rw [CellEval.evalFormat, if_neg hsome]
    simp only [CellEval.evalEach, ListLang.evalEach, bind_assoc, pure_bind]
    refine bind (hev e) fun v => bind (evalEach hev es) fun vs => ?_
    rw [← List.map_cons, Cell.format_ofValue happly]
    exact ofExcept _

theorem evalCall (hctx : ctx.builtins = Builtin.defaults) (name : String) (head : Expr)
    (args : List Expr) :
    Mirrors Cell.ofValue (CellEval.evalCall ctx ev' name (head :: args))
      (evalCall ctx ev name args) := by
  refine get fun s => ?_
  have hfunction : (CellSession.of s).function? name = s.env.function? name := rfl
  rw [CellSession.lookup?_of, hfunction]
  cases s.env.lookup? name with
  | some v => exact pure Cell.ofValue v
  | none =>
    cases s.env.function? name with
    | some f =>
      exact bind (bindNone f.param) fun _ => bind (note .call f) fun _ => evalBody hev .nil f.body
    | none =>
      rw [Context.builtin?, hctx, Cell.cut_tail]
      rcases builtins_lookup name with ⟨hcell, hvalue⟩ | ⟨hcell, hvalue⟩
      · rw [hcell, hvalue]
        exact evalFormat hev rfl args
      · rw [hcell, hvalue]
        exact fail Cell.ofValue _

theorem evalList (hctx : ctx.builtins = Builtin.defaults) (opening : Position) (items : List Expr) :
    Mirrors Cell.ofValue (CellEval.evalList ctx ev' opening items)
      (evalList ctx ev opening items) := by
  rcases items with _ | ⟨t | ⟨p, es⟩, args⟩
  · exact pure Cell.ofValue .nil
  · unfold CellEval.evalList
    simp only
    cases hop : operatorOf? t with
    | some op =>
      rw [evalList_of_operator args hop]
      exact evalArithmetic hev op _ args
    | none =>
      by_cases hquote : isQuote t.text = true
      · rw [evalList_of_quote args hop hquote, if_pos hquote]
        exact pure Cell.ofValue _
      by_cases hdef : t.text = "def"
      · rw [evalList_of_definition args hop hquote hdef, if_neg hquote, if_pos hdef]
        exact evalDefinition _ args
      · rw [evalList_of_call args hop hquote hdef, if_neg hquote, if_neg hdef]
        exact evalCall hev hctx t.text _ args
  · exact fail Cell.ofValue _

end Forms

/-- Evaluation with cells is evaluation with the values that they stand for. -/
theorem eval {ctx : Context} (hctx : ctx.builtins = Builtin.defaults) (fuel : Nat) (e : Expr) :
    Mirrors Cell.ofValue (CellEval.eval ctx fuel e) (eval ctx fuel e) := by
  induction fuel generalizing e with
  | zero =>
    cases e with
    | atom t => exact evalAtom t
    | list p items => exact bind enter fun _ => leaving fun _ => rfl
  | succ fuel ih =>
    cases e with
    | atom t => exact evalAtom t
    | list p items =>
      exact bind enter fun _ => leaving (bind (evalList ih hctx p items) fun v =>
        bind (record _ v) fun _ => pure Cell.ofValue v)

theorem evalAll {ctx : Context} (hctx : ctx.builtins = Builtin.defaults) (es : List Expr) :
    Mirrors (List.map Cell.ofValue) (CellEval.evalAll ctx es) (evalAll ctx es) :=
  evalEach (eval hctx ctx.fuel) es

end Mirrors

/-- What becomes of a run with cells, when this becomes of one with values. -/
def CellOutcome.of (o : Outcome) : CellOutcome where
  result := match o.result with
    | .ok vs => .ok (vs.map Cell.ofValue)
    | .error (.read e) => .error (.read e)
    | .error (.halt h) => .error (.stop (.halt h))
  session := .of o.session

theorem runIn_of {ctx : Context} (hctx : ctx.builtins = Builtin.defaults) (s : Session)
    (text : List Char) :
    CellEval.runIn ctx (.of s) text = .of (runIn ctx s text) := by
  unfold CellEval.runIn runIn
  cases read text with
  | error e => rfl
  | ok es =>
    simp only [Mirrors.evalAll hctx es s]
    cases evalAll ctx es s <;> rfl

end ListLang
