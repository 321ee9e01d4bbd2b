import ListLang.Evaluator

/-! What evaluation does to a session. A relation between sessions that holds of every single action
of the evaluator, and along sequences of them, holds of every evaluation, however it ends. The first
use is that nothing a session holds is ever taken back. -/

namespace ListLang

/-- One level further in. -/
def Session.down (s : Session) : Session := { s with depth := s.depth + 1 }

/-- One level further out. -/
def Session.up (s : Session) : Session := { s with depth := s.depth - 1 }

/-- A session after a journal entry was made, if entries are made at all. -/
def Session.noting (s : Session) (ctx : Context) (event : JournalEvent) (f : Function) : Session :=
  { s with
    journal := if ctx.journaling then s.journal.push ⟨s.depth, event, f.display⟩ else s.journal }

/-- Whether a record can be written: it can if none are kept, or if there is room for it. -/
def Context.canRecord (ctx : Context) (s : Session) : Bool :=
  ctx.tracer.all (·.hasRoom s.trace.size)

/-- A session after a record was written, if records are kept at all. -/
def Session.recording (s : Session) (ctx : Context) (r : TraceRecord) : Session :=
  { s with trace := if ctx.tracer.isSome then s.trace.push r else s.trace }

/-! The room in a sink. -/

/-- A tracer that never fails to write, or none. -/
def Reliable (tracer : Option Tracer) : Prop := ∀ t, tracer = some t → t.capacity = none

/-- How many more records are taken; none if any number is. -/
def Context.roomLeft (ctx : Context) (s : Session) : Option Nat :=
  (ctx.tracer.bind Tracer.capacity).map (· - s.trace.size)

section Room

variable (ctx : Context)

theorem canRecord_eq_roomLeft (s : Session) : ctx.canRecord s = (ctx.roomLeft s).all (0 < ·) := by
  unfold Context.canRecord Context.roomLeft Tracer.hasRoom
  cases ctx.tracer with
  | none => rfl
  | some t =>
    obtain ⟨format, capacity⟩ := t
    cases capacity with
    | none => rfl
    | some n => exact decide_eq_decide.2 Nat.sub_pos_iff_lt.symm

/-- Contexts that share a tracer have room in step. -/
theorem canRecord_congr {d : Context} (htracer : ctx.tracer = d.tracer) {s t : Session}
    (h : ctx.roomLeft s = ctx.roomLeft t) : ctx.canRecord s = d.canRecord t := by
  have hd : d.canRecord t = ctx.canRecord t := by
    rw [Context.canRecord, Context.canRecord, htracer]
  rw [hd, canRecord_eq_roomLeft, canRecord_eq_roomLeft, h]

theorem roomLeft_recording (s : Session) (r : TraceRecord) :
    ctx.roomLeft (s.recording ctx r) = (ctx.roomLeft s).map (· - 1) := by
  unfold Context.roomLeft Session.recording
  cases ctx.tracer with
  | none => rfl
  | some t =>
    obtain ⟨format, capacity⟩ := t
    cases capacity <;> simp [Nat.sub_sub]

theorem roomLeft_eq_of_reliable {s t : Session}
    (h : Reliable ctx.tracer ∨ ctx.roomLeft s = ctx.roomLeft t) : ctx.roomLeft s =
      ctx.roomLeft t := by
  rcases h with hreliable | hroom
  · have hnone : ctx.tracer.bind Tracer.capacity = none := by
      cases htracer : ctx.tracer with
      | none => rfl
      | some t => exact hreliable t htracer
    rw [Context.roomLeft, Context.roomLeft, hnone, Option.map_none, Option.map_none]
  · exact hroom

end Room

/-- A sink that takes one record. -/
def oneRecord : Context := { Context.plain "run" "0x1" with tracer := some ⟨.text, some 1⟩ }

namespace Eval

variable {α β : Type}

/-- The session that a computation leaves. -/
def final : EStateM.Result Halt Session α → Session
  | .ok _ s => s
  | .error _ s => s

/-- What a computation answers. -/
def answer : EStateM.Result Halt Session α → Except Halt α
  | .ok a _ => .ok a
  | .error h _ => .error h

/-- Why a computation fails, if it does. -/
def failure? : EStateM.Result Halt Session α → Option Halt
  | .ok _ _ => none
  | .error h _ => some h

theorem bind_of_ok {m : Eval α} {f : α → Eval β} {s t : Session} {a : α} (h : m s = .ok a t) :
    (m >>= f) s = f a t := by
  simp [Bind.bind, EStateM.bind, h]

theorem bind_of_error {m : Eval α} {f : α → Eval β} {s t : Session} {e : Halt}
    (h : m s = .error e t) :
    (m >>= f) s = .error e t := by
  simp [Bind.bind, EStateM.bind, h]

theorem get_run (s : Session) : (get : Eval Session) s = .ok s s := rfl

/-- A computation within a list that was entered. -/
def inside (m : Eval α) : Eval α := fun s => leaving m s.down

theorem inside_of_ok {m : Eval α} {s t : Session} {a : α} (h : m s.down = .ok a t) :
    inside m s = .ok a t.up := by
  simp only [inside, leaving, h, Session.up]

theorem inside_of_error {m : Eval α} {s t : Session} {e : Halt} (h : m s.down = .error e t) :
    inside m s = .error e t.up := by
  simp only [inside, leaving, h, Session.up]

theorem final_inside (m : Eval α) (s : Session) : final (inside m s) = (final (m s.down)).up := by
  cases h : m s.down with
  | ok a t => rw [inside_of_ok h, final, final]
  | error e t => rw [inside_of_error h, final, final]

/-- A list is evaluated and its record written. -/
def recorded (ctx : Context) (ev : Expr → Eval Value) (opening : Position) (items : List Expr) :
    Eval Value := do
  let v ← evalList ctx ev opening items
  record ctx (.list opening items) v
  pure v

/-- Appends a definition. -/
def addFunction (ctx : Context) (f : Function) : Eval Unit := do
  define f
  note ctx .define f

/-- Appends the binding of a call. -/
def addCall (ctx : Context) (f : Function) : Eval Unit := do
  bind f.param none
  note ctx .call f

theorem note_run (ctx : Context) (event : JournalEvent) (f : Function) (s : Session) :
    note ctx event f s = .ok () (s.noting ctx event f) := by
  unfold note Session.noting
  split <;> rfl

theorem addFunction_run (ctx : Context) (f : Function) (s : Session) :
    addFunction ctx f s = .ok () (Session.noting { s with env := s.env.define f } ctx .define f) :=
  note_run ctx .define f _

theorem addCall_run (ctx : Context) (f : Function) (s : Session) :
    addCall ctx f s =
      .ok () (Session.noting { s with env := s.env.bind f.param none } ctx .call f) :=
  note_run ctx .call f _

theorem record_run (ctx : Context) (e : Expr) (v : Value) (s : Session) :
    record ctx e v s =
      if ctx.canRecord s then .ok () (s.recording ctx (.of e v))
        else .error (.error .sinkFull) s := by
  unfold record Context.canRecord Session.recording
  cases ctx.tracer <;> rfl

/-- Every run of `m` moves the session along `R`. -/
def Moves (R : Session → Session → Prop) (m : Eval α) : Prop := ∀ s, R s (final (m s))

end Eval

open Eval

/-- Why a list cannot be entered at this depth, if it cannot. -/
def Context.barrier? (ctx : Context) (fuel depth : Nat) : Option Halt :=
  if ctx.limit ≠ 0 && ctx.limit ≤ depth then some (.error (.tooDeep ctx.limit))
  else if fuel = 0 then some .exhausted
  else none

theorem eval_atom (ctx : Context) (fuel : Nat) (t : Token) :
    eval ctx fuel (.atom t) = evalAtom t := by
  cases fuel <;> rfl

section Barrier

variable {ctx : Context} {fuel : Nat} {p : Position} {es : List Expr} {s : Session}

theorem enter_of_deep (h : (ctx.limit ≠ 0 && ctx.limit ≤ s.depth) = true) :
    enter ctx s = .error (.error (.tooDeep ctx.limit)) s := if_pos h

theorem enter_of_not_deep (h : ¬(ctx.limit ≠ 0 && ctx.limit ≤ s.depth) = true) :
    enter ctx s = .ok () s.down := if_neg h

/-- A list that cannot be entered changes nothing. -/
theorem eval_list_barrier {h : Halt} (hb : ctx.barrier? fuel s.depth = some h) :
    eval ctx fuel (.list p es) s = .error h s := by
  unfold Context.barrier? at hb
  split at hb
  · rename_i hdeep
    obtain rfl := Option.some.inj hb
    cases fuel <;> exact bind_of_error (enter_of_deep hdeep)
  · rename_i hdeep
    split at hb
    · rename_i hfuel
      obtain rfl := Option.some.inj hb
      subst hfuel
      exact bind_of_ok (enter_of_not_deep hdeep)
    · cases hb

theorem fuel_of_barrier_none {depth : Nat} (hb : ctx.barrier? fuel depth = none) :
    ∃ n, fuel = n + 1 := by
  cases fuel with
  | zero =>
    unfold Context.barrier? at hb
    split at hb <;> cases hb
  | succ n => exact ⟨n, rfl⟩

theorem eval_list_inside (hb : ctx.barrier? (fuel + 1) s.depth = none) :
    eval ctx (fuel + 1) (.list p es) s = inside (recorded ctx (eval ctx fuel) p es) s := by
  unfold Context.barrier? at hb
  split at hb
  · cases hb
  · rename_i hdeep
    exact bind_of_ok (enter_of_not_deep hdeep)

end Barrier

theorem evalDefinition_atom (ctx : Context) (name : Token) (param : Expr) (body : List Expr) :
    evalDefinition ctx (.atom name :: param :: body) =
      addFunction ctx ⟨name.text, some param, body⟩ >>= fun _ =>
        pure (.function ⟨name.text, some param, body⟩) := rfl

theorem evalDefinition_singleton (ctx : Context) (e : Expr) :
    evalDefinition ctx [e] = fail .incompleteDefinition := by
  cases e <;> rfl

theorem evalArithmetic_of_length (ev : Expr → Eval Value) (op : Operator) {args : List Expr}
    (h : args.length ≠ 2) : evalArithmetic ev op args = fail (.operandCount op args.length) := by
  unfold ListLang.evalArithmetic
  split
  · exact absurd rfl h
  · rfl

theorem evalFunction_eq (ctx : Context) (ev : Expr → Eval Value) (f : Function) :
    evalFunction ctx ev f = addCall ctx f >>= fun _ => evalBody ev .nil f.body := rfl

section Call

variable {ctx : Context} {ev : Expr → Eval Value} {name : String} {args : List Expr} {s : Session}

theorem evalCall_of_lookup {v : Value} (h : s.env.lookup? name = some v) :
    evalCall ctx ev name args s = .ok v s := by
  rw [evalCall, bind_of_ok (get_run s), h]
  rfl

theorem evalCall_of_function {f : Function} (h : s.env.lookup? name = none)
    (hf : s.env.function? name = some f) : evalCall ctx ev name args s =
      evalFunction ctx ev f s := by
  rw [evalCall, bind_of_ok (get_run s), h, hf]

theorem evalCall_of_builtin {b : Builtin} (h : s.env.lookup? name = none)
    (hf : s.env.function? name = none) (hb : ctx.builtin? name = some b) :
    evalCall ctx ev name args s = evalBuiltin ctx ev args b s := by
  rw [evalCall, bind_of_ok (get_run s), h, hf, hb]

theorem evalCall_of_unbound (h : s.env.lookup? name = none) (hf : s.env.function? name = none)
    (hb : ctx.builtin? name = none) :
    evalCall ctx ev name args s = .error (.error (.unbound name)) s := by
  rw [evalCall, bind_of_ok (get_run s), h, hf, hb]
  rfl

end Call

section Form

variable {ctx : Context} {ev : Expr → Eval Value} {p : Position} {t : Token} (args : List Expr)

theorem evalList_of_operator {op : Operator} (h : operatorOf? t = some op) :
    evalList ctx ev p (.atom t :: args) = evalArithmetic ev op args := by
  simp only [evalList, h]

variable (h : operatorOf? t = none)
include h

theorem evalList_of_quote (hquote : isQuote t.text = true) :
    evalList ctx ev p (.atom t :: args) = pure (.list (.list p (.atom t :: args))) := by
  simp only [evalList, h, if_pos hquote]

variable (hquote : ¬isQuote t.text = true)
include hquote

theorem evalList_of_definition (hdef : t.text = "def") :
    evalList ctx ev p (.atom t :: args) = evalDefinition ctx args := by
  simp only [evalList, h, if_neg hquote, if_pos hdef]

theorem evalList_of_call (hdef : t.text ≠ "def") :
    evalList ctx ev p (.atom t :: args) = evalCall ctx ev t.text args := by
  simp only [evalList, h, if_neg hquote, if_neg hdef]

end Form

/-! Moving along a relation. -/

section Moves

variable {α β : Type} {R : Session → Session → Prop} {ctx : Context} {ev : Expr → Eval Value}

/-- A relation that every action of the evaluator moves along. -/
structure Steady (ctx : Context) (R : Session → Session → Prop) : Prop where
  refl : ∀ s, R s s
  trans : ∀ {s t u}, R s t → R t u → R s u
  level : ∀ {s t : Session}, R s.down t → R s t.up
  record : ∀ e v, Moves R (record ctx e v)
  define : ∀ f, Moves R (addFunction ctx f)
  call : ∀ s name f, s.env.lookup? name = none → s.env.function? name = some f →
    R s (final (addCall ctx f s))

namespace Steady

variable (hR : Steady ctx R)
include hR

theorem pure (a : α) : Moves R (pure a : Eval α) := fun s => hR.refl s

theorem fail (e : EvalError) : Moves R (fail e : Eval α) := fun s => hR.refl s

theorem ofExcept : ∀ r : Except EvalError α, Moves R (ofExcept r)
  | .ok a => hR.pure a
  | .error e => hR.fail e

theorem bind {m : Eval α} {f : α → Eval β} (hm : Moves R m) (hf : ∀ a, Moves R (f a)) :
    Moves R (m >>= f) := by
  intro s
  have h := hm s
  cases hs : m s with
  | ok a t =>
    rw [hs] at h
    rw [bind_of_ok hs]
    exact hR.trans h (hf a t)
  | error e t =>
    rw [hs] at h
    rw [bind_of_error hs]
    exact h

theorem evalAtom (t : Token) : Moves R (evalAtom t) := by
  unfold ListLang.evalAtom
  split
  · exact hR.pure _
  · exact hR.fail _

theorem evalEach (hev : ∀ e, Moves R (ev e)) (es : List Expr) : Moves R (evalEach ev es) := by
  induction es with
  | nil => exact hR.pure _
  | cons e es ih => exact hR.bind (hev e) fun _ => hR.bind ih fun _ => hR.pure _

theorem evalBody (hev : ∀ e, Moves R (ev e)) (last : Value) (es : List Expr) :
    Moves R (evalBody ev last es) := by
  induction es generalizing last with
  | nil => exact hR.pure _
  | cons e es ih => exact hR.bind (hev e) ih

theorem evalArithmetic (hev : ∀ e, Moves R (ev e)) (op : Operator) (args : List Expr) :
    Moves R (evalArithmetic ev op args) := by
  unfold ListLang.evalArithmetic
  split
  · exact hR.bind (hev _) fun _ => hR.bind (hev _) fun _ => hR.ofExcept _
  · exact hR.fail _

theorem evalDefinition (args : List Expr) : Moves R (evalDefinition ctx args) := by
  unfold ListLang.evalDefinition
  split
  · rename_i name param body
    exact hR.bind (m := addFunction ctx ⟨name.text, some param, body⟩) (hR.define _)
      fun _ => hR.pure _
  · exact hR.fail _
  · exact hR.fail _

theorem evalBuiltin (hev : ∀ e, Moves R (ev e)) (args : List Expr) :
    ∀ b, Moves R (evalBuiltin ctx ev args b)
  | .eager _ => hR.bind (hR.evalEach hev args) fun _ => hR.ofExcept _
  | .lazy _ => fun s => hR.ofExcept _ s

theorem evalCall (hev : ∀ e, Moves R (ev e)) (name : String) (args : List Expr) :
    Moves R (evalCall ctx ev name args) := by
  intro s
  cases hl : s.env.lookup? name with
  | some v =>
    rw [evalCall_of_lookup hl]
    exact hR.refl s
  | none =>
    cases hf : s.env.function? name with
    | some f =>
      rw [evalCall_of_function hl hf, evalFunction_eq]
      have h := hR.call s name f hl hf
      cases hs : addCall ctx f s with
      | ok a t =>
        rw [hs] at h
        rw [bind_of_ok hs]
        exact hR.trans h (hR.evalBody hev .nil f.body t)
      | error e t =>
        rw [hs] at h
        rw [bind_of_error hs]
        exact h
    | none =>
      cases hb : ctx.builtin? name with
      | some b =>
        rw [evalCall_of_builtin hl hf hb]
        exact hR.evalBuiltin hev args b s
      | none =>
        rw [evalCall_of_unbound hl hf hb]
        exact hR.refl s

theorem evalList (hev : ∀ e, Moves R (ev e)) (p : Position) (items : List Expr) :
    Moves R (evalList ctx ev p items) := by
  unfold ListLang.evalList
  split
  · exact hR.pure _
  · exact hR.fail _
  · split
    · exact hR.evalArithmetic hev _ _
    · split
      · exact hR.pure _
      · split
        · exact hR.evalDefinition _
        · exact hR.evalCall hev _ _

/-- Every evaluation moves along. -/
theorem eval : ∀ (fuel : Nat) (e : Expr), Moves R (eval ctx fuel e)
  | fuel, .atom t => by
    rw [eval_atom]
    exact hR.evalAtom t
  | fuel, .list p es => by
    intro s
    cases hb : ctx.barrier? fuel s.depth with
    | some h =>
      rw [eval_list_barrier hb]
      exact hR.refl s
    | none =>
      obtain ⟨n, rfl⟩ := fuel_of_barrier_none hb
      have h : Moves R (recorded ctx (ListLang.eval ctx n) p es) :=
        hR.bind (hR.evalList (eval n) p es) fun v => hR.bind (hR.record _ v) fun _ => hR.pure v
      rw [eval_list_inside hb, final_inside]
      exact hR.level (h _)

theorem evalAll (es : List Expr) : Moves R (evalAll ctx es) := hR.evalEach (hR.eval _) es

end Steady

end Moves

/-! Nothing is taken back. -/

/-- All that `s` holds stands at the beginning of what `t` holds. -/
structure Session.Grows (s t : Session) : Prop where
  functions : s.env.functions.toList <+: t.env.functions.toList
  bindings : s.env.bindings.toList <+: t.env.bindings.toList
  trace : s.trace.toList <+: t.trace.toList
  journal : s.journal.toList <+: t.journal.toList

theorem Session.Grows.refl (s : Session) : s.Grows s :=
  ⟨List.prefix_rfl, List.prefix_rfl, List.prefix_rfl, List.prefix_rfl⟩

theorem Session.Grows.trans {s t u : Session} (h : s.Grows t) (h' : t.Grows u) : s.Grows u :=
  ⟨h.functions.trans h'.functions, h.bindings.trans h'.bindings, h.trace.trans h'.trace,
    h.journal.trans h'.journal⟩

theorem record_grows (ctx : Context) (e : Expr) (v : Value) :
    Moves Session.Grows (record ctx e v) := by
  intro s
  unfold record
  split
  · exact .refl s
  · split
    · exact ⟨List.prefix_rfl, List.prefix_rfl, by simp [final], List.prefix_rfl⟩
    · exact .refl s

theorem noting_grows (ctx : Context) (event : JournalEvent) (f : Function) (s : Session) :
    s.Grows (s.noting ctx event f) := by
  refine ⟨List.prefix_rfl, List.prefix_rfl, List.prefix_rfl, ?_⟩
  unfold Session.noting
  split
  · simp
  · exact List.prefix_rfl

theorem define_grows (f : Function) (s : Session) : s.Grows { s with env := s.env.define f } :=
  ⟨by simp [Environment.define], List.prefix_rfl, List.prefix_rfl, List.prefix_rfl⟩

theorem bind_grows (param : Option Expr) (value : Option Value) (s : Session) :
    s.Grows { s with env := s.env.bind param value } :=
  ⟨List.prefix_rfl, by simp [Environment.bind], List.prefix_rfl, List.prefix_rfl⟩

theorem addFunction_grows (ctx : Context) (f : Function) :
    Moves Session.Grows (addFunction ctx f) := by
  intro s
  rw [addFunction_run]
  exact (define_grows f s).trans (noting_grows ctx .define f _)

theorem addCall_grows (ctx : Context) (f : Function) : Moves Session.Grows (addCall ctx f) := by
  intro s
  rw [addCall_run]
  exact (bind_grows f.param none s).trans (noting_grows ctx .call f _)

theorem grows_steady (ctx : Context) : Steady ctx Session.Grows where
  refl := .refl
  trans := .trans
  level h := ⟨h.functions, h.bindings, h.trace, h.journal⟩
  record := record_grows ctx
  define := addFunction_grows ctx
  call s _ f _ _ := addCall_grows ctx f s

end ListLang
