import ListLang.Proofs.RoundTrip
import ListLang.Proofs.Simulation

/-! Layout. Texts that hold the same expressions run alike: where a token stands reaches no value,
no error, no record and no journal entry, and the environments they leave look the same. -/

namespace ListLang

open Eval

/-! What can be seen of a run. -/

def Value.shown (v : Value) : ValueType × String := (v.type, v.display)

def Function.shown (f : Function) : String × String × String :=
  (f.name, Expr.encodeOption f.param, Expr.encodeAll f.body)

def Binding.shown (b : Binding) : String × Option (ValueType × String) :=
  (Expr.encodeOption b.param, b.value.map Value.shown)

structure Shown where
  result : Except RunError (List (ValueType × String))
  trace : List TraceRecord
  journal : List JournalEntry
  functions : List (String × String × String)
  bindings : List (String × Option (ValueType × String))

def Outcome.shown (o : Outcome) : Shown where
  result := o.result.map (·.map Value.shown)
  trace := o.session.trace.toList
  journal := o.session.journal.toList
  functions := o.session.env.functions.toList.map Function.shown
  bindings := o.session.env.bindings.toList.map Binding.shown

/-- A builtin whose answers do not depend on where its arguments were written. -/
def Builtin.Blind (b : Builtin) : Prop := BuiltinRel Expr.Alike Eq b b

def Context.Blind (ctx : Context) : Prop := ∀ name b, ctx.builtin? name = some b → b.Blind

theorem alike_congruent : Congruent Expr.Alike where
  atom {a e} h := by
    cases e with
    | atom b => exact ⟨b, rfl, h⟩
    | list q fs => exact h.elim
  list {p es e} h := by
    cases e with
    | atom b => exact h.elim
    | list q fs => exact ⟨q, fs, rfl, Expr.alikeAll_iff.1 h⟩

/-! Sessions that differ in positions only. -/

structure BindingRel (E : Expr → Expr → Prop) (b c : Binding) : Prop where
  param : Option.Rel E b.param c.param
  value : Option.Rel (ValueRel E) b.value c.value

structure Session.Alike (s t : Session) : Prop where
  depth : s.depth = t.depth
  trace : s.trace = t.trace
  journal : s.journal = t.journal
  functions : List.Forall₂ (FunctionRel Expr.Alike) s.env.functions.toList t.env.functions.toList
  bindings : List.Forall₂ (BindingRel Expr.Alike) s.env.bindings.toList t.env.bindings.toList

theorem find?_rel {α β : Type} {R : α → β → Prop} {p : α → Bool} {q : β → Bool}
    (hpq : ∀ x y, R x y → p x = q y) {xs : List α} {ys : List β} (h : List.Forall₂ R xs ys) :
    Option.Rel R (xs.find? p) (ys.find? q) := by
  induction h with
  | nil => exact .none
  | @cons x y xs ys hxy _ ih =>
    rw [List.find?_cons, List.find?_cons, hpq x y hxy]
    cases q y with
    | true => exact .some hxy
    | false => exact ih

theorem BindingRel.isFor_eq {b c : Binding} (h : BindingRel Expr.Alike b c) (name : String) :
    b.isFor name = c.isFor name := by
  obtain ⟨param, value⟩ := b
  obtain ⟨param', value'⟩ := c
  rcases optionRel_cases h.param with ⟨rfl, rfl⟩ | ⟨e, f, rfl, rfl, hef⟩
  · rfl
  · cases e with
    | atom a =>
      obtain ⟨b, rfl, -, htext⟩ := alike_congruent.atom hef
      simp only [Binding.isFor, Expr.isNamed, htext]
    | list p es =>
      obtain ⟨q, fs, rfl, -⟩ := alike_congruent.list hef
      rfl

theorem BindingRel.getD {b c : Binding} (h : BindingRel Expr.Alike b c) :
    ValueRel Expr.Alike (b.value.getD .nil) (c.value.getD .nil) := by
  rcases optionRel_cases h.value with ⟨hb, hc⟩ | ⟨v, w, hb, hc, hv⟩
  · rw [hb, hc]
    exact .nil
  · rw [hb, hc]
    exact hv

theorem BindingRel.refl (b : Binding) : BindingRel Expr.Alike b b :=
  ⟨optionRel_refl Expr.Alike.refl _, optionRel_refl (.refl Expr.Alike.refl) _⟩

theorem Session.Alike.refl (s : Session) : s.Alike s :=
  ⟨rfl, rfl, rfl, List.forall₂_same.2 fun f _ => .refl Expr.Alike.refl f,
    List.forall₂_same.2 fun b _ => .refl b⟩

namespace Session.Alike

variable {s t : Session} (h : s.Alike t)
include h

theorem lookup (name : String) :
    Option.Rel (ValueRel Expr.Alike) (s.env.lookup? name) (t.env.lookup? name) := by
  have hfind := find?_rel (fun b c hbc => hbc.isFor_eq name) h.bindings
  rw [Environment.lookup?, Environment.lookup?, ← Array.find?_toList, ← Array.find?_toList]
  rcases optionRel_cases hfind with ⟨hs, ht⟩ | ⟨b, c, hs, ht, hbc⟩
  · rw [hs, ht]
    exact .none
  · rw [hs, ht]
    exact .some hbc.getD

theorem function (name : String) :
    Option.Rel (FunctionRel Expr.Alike) (s.env.function? name) (t.env.function? name) := by
  rw [Environment.function?, Environment.function?, ← Array.find?_toList, ← Array.find?_toList]
  exact find?_rel (fun f g hfg => by rw [hfg.name]) h.functions

theorem noting (ctx : Context) (event : JournalEvent) {f g : Function}
    (hfg : FunctionRel Expr.Alike f g) :
    (s.noting ctx event f).Alike (t.noting ctx event g) := by
  refine ⟨h.depth, h.trace, ?_, h.functions, h.bindings⟩
  simp only [Session.noting, h.depth, h.journal, hfg.display_eq alike_congruent]

theorem define {f g : Function} (hfg : FunctionRel Expr.Alike f g) :
    Session.Alike { s with env := s.env.define f } { t with env := t.env.define g } := by
  refine ⟨h.depth, h.trace, h.journal, ?_, h.bindings⟩
  simpa [Environment.define] using List.rel_append h.functions (.cons hfg .nil)

theorem bind {e f : Option Expr} (hef : Option.Rel Expr.Alike e f) :
    Session.Alike { s with env := s.env.bind e none } { t with env := t.env.bind f none } := by
  have hbinding : BindingRel Expr.Alike ⟨e, none⟩ ⟨f, none⟩ := ⟨hef, .none⟩
  refine ⟨h.depth, h.trace, h.journal, h.functions, ?_⟩
  simpa [Environment.bind] using List.rel_append h.bindings (.cons hbinding .nil)

end Session.Alike

theorem TraceRecord.of_eq {e f : Expr} {v w : Value} (hef : e.Alike f)
    (hvw : ValueRel Expr.Alike v w) :
    TraceRecord.of e v = TraceRecord.of f w := by
  rw [TraceRecord.of, TraceRecord.of, hef.encode_eq, hvw.display_eq alike_congruent, hvw.type_eq]

/-- Runs that differ in positions only, and are never cut. -/
def layoutLink : Link where
  expr := Expr.Alike
  site := Eq
  session := Session.Alike
  cut _ _ _ := False

theorem layoutLink_record (ctx : Context) {e f : Expr} {v w : Value} (hef : e.Alike f)
    (hvw : ValueRel Expr.Alike v w) : layoutLink.Follows Eq (record ctx e v) (record ctx f w) := by
  intro s t hst
  unfold record
  cases ctx.tracer with
  | none => exact ⟨rfl, hst⟩
  | some tracer =>
    simp only
    rw [hst.trace, TraceRecord.of_eq hef hvw]
    split
    · exact ⟨rfl, hst.depth, rfl, hst.journal, hst.functions, hst.bindings⟩
    · exact Or.inr ⟨t, rfl, hst⟩

theorem layoutLink_sound {ctx : Context} (hblind : ctx.Blind) :
    layoutLink.Sound ctx ctx where
  congruent := alike_congruent
  cut_grows h _ := h.elim
  depth hst := hst.depth
  lookup hst := hst.lookup
  function hst := hst.function
  site {s t} hst := by
    have hdepth : s.depth = t.depth := hst.depth
    show ctx.site s = ctx.site t
    rw [Context.site, Context.site, hdepth]
  builtin name := by
    cases hb : ctx.builtin? name with
    | none => exact .none
    | some b => exact .some (hblind name b hb)
  define hfg s t hst := by
    rw [addFunction_run, addFunction_run]
    exact ⟨rfl, (hst.define hfg).noting ctx .define hfg⟩
  call hfg s t hst := by
    rw [addCall_run, addCall_run]
    exact ⟨rfl, (hst.bind hfg.param).noting ctx .call hfg⟩
  record := layoutLink_record ctx

theorem layoutLink_nests : layoutLink.Nests layoutLink where
  down h := ⟨congrArg (· + 1) h.depth, h.trace, h.journal, h.functions, h.bindings⟩
  up h := ⟨congrArg (· - 1) h.depth, h.trace, h.journal, h.functions, h.bindings⟩
  cut h := h

/-! What can be seen is the same. -/

theorem ValueRel.shown_eq {v w : Value} (h : ValueRel Expr.Alike v w) : v.shown = w.shown := by
  rw [Value.shown, Value.shown, h.type_eq, h.display_eq alike_congruent]

theorem FunctionRel.shown_eq {f g : Function} (h : FunctionRel Expr.Alike f g) :
    f.shown = g.shown := by
  have hbody : Expr.encodeAll f.body = Expr.encodeAll g.body :=
    (alike_congruent.alikeAll h.body).encodeAll_eq
  rw [Function.shown, Function.shown, h.name, alike_congruent.encodeOption_eq h.param, hbody]

theorem BindingRel.shown_eq {b c : Binding} (h : BindingRel Expr.Alike b c) :
    b.shown = c.shown := by
  rw [Binding.shown, Binding.shown, alike_congruent.encodeOption_eq h.param]
  rcases optionRel_cases h.value with ⟨hb, hc⟩ | ⟨v, w, hb, hc, hv⟩
  · rw [hb, hc]
  · rw [hb, hc, Option.map_some, Option.map_some, hv.shown_eq]

theorem Session.Alike.shown_eq {s t : Session} (h : s.Alike t) {r q : Except RunError (List Value)}
    (hrq : r.map (·.map Value.shown) = q.map (·.map Value.shown)) :
    Outcome.shown ⟨r, s⟩ = Outcome.shown ⟨q, t⟩ := by
  have hfunctions := map_eq_of_forall₂ (fun f g hfg => FunctionRel.shown_eq hfg) h.functions
  have hbindings := map_eq_of_forall₂ (fun b c hbc => BindingRel.shown_eq hbc) h.bindings
  simp only [Outcome.shown, hrq, h.trace, h.journal, hfunctions, hbindings]

/-- Expressions that differ in places only end in the same way. -/
theorem evalAll_alike {ctx : Context} (hblind : ctx.Blind) {s t : Session} (hst : s.Alike t)
    {es fs : List Expr} (h : Expr.AlikeAll es fs) :
    (∃ vs ws s' t', evalAll ctx es s = .ok vs s' ∧ evalAll ctx fs t = .ok ws t' ∧
      vs.map Value.shown = ws.map Value.shown ∧ s'.Alike t') ∨
    ∃ e s' t', evalAll ctx es s = .error e s' ∧ evalAll ctx fs t = .error e t' ∧ s'.Alike t' := by
  have hends :=
    (layoutLink_sound hblind).evalAll rfl rfl layoutLink_nests (Expr.alikeAll_iff.1 h) s t hst
  rcases hends.cases with
    ⟨vs, ws, s', t', hs, ht, hvs, hst'⟩ | ⟨e, s', t', hs, ht, hst'⟩ | ⟨_, _, _, hcut⟩
  · exact Or.inl ⟨vs, ws, s', t', hs, ht,
      map_eq_of_forall₂ (fun v w hv => ValueRel.shown_eq hv) hvs, hst'⟩
  · exact Or.inr ⟨e, s', t', hs, ht, hst'⟩
  · exact hcut.elim

theorem Session.Alike.start : Session.Alike .start .start := ⟨rfl, rfl, rfl, .nil, .nil⟩

theorem Context.blind_of_defaults {ctx : Context} (h : ctx.builtins = Builtin.defaults) :
    ctx.Blind := by
  intro name b hb
  rw [builtin?_of_defaults h hb]
  exact .format alike_congruent

/-- Tells the line of its first argument. -/
def Builtin.line : Builtin := .lazy fun _ args =>
  .ok (.int (Int64.ofInt ((args.head?.map fun e => e.pos.line).getD 0)))

def lineTelling : Context := (Context.plain "run" "0x1").withBuiltin "w" .line

end ListLang
