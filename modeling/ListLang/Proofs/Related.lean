import ListLang.Evaluator
import ListLang.Proofs.Alike

/-! A relation between expressions, carried over to functions, values and builtins. It has to
respect shape and atoms; then related values are shown alike, count alike and are taken alike by
every builtin. -/

namespace ListLang

theorem map_eq_of_forall₂ {α β γ : Type} {R : α → β → Prop} {f : α → γ} {g : β → γ}
    (hfg : ∀ a b, R a b → f a = g b) {as : List α} {bs : List β} (h : List.Forall₂ R as bs) :
    as.map f = bs.map g := by
  induction h with
  | nil => rfl
  | cons hab _ ih => rw [List.map_cons, List.map_cons, hfg _ _ hab, ih]

theorem optionRel_cases {α β : Type} {R : α → β → Prop} {a : Option α} {b : Option β}
    (h : Option.Rel R a b) : (a = none ∧ b = none) ∨ ∃ x y, a = some x ∧ b = some y ∧ R x y := by
  cases h with
  | none => exact Or.inl ⟨rfl, rfl⟩
  | some h => exact Or.inr ⟨_, _, rfl, rfl, h⟩

theorem optionRel_refl {α : Type} {R : α → α → Prop} (hR : ∀ a, R a a) : ∀ a :
    Option α, Option.Rel R a a
  | none => .none
  | some a => .some (hR a)

structure FunctionRel (E : Expr → Expr → Prop) (f g : Function) : Prop where
  name : f.name = g.name
  param : Option.Rel E f.param g.param
  body : List.Forall₂ E f.body g.body

inductive ValueRel (E : Expr → Expr → Prop) : Value → Value → Prop where
  | nil : ValueRel E .nil .nil
  | int (n : Int64) : ValueRel E (.int n) (.int n)
  | float (x : Float) : ValueRel E (.float x) (.float x)
  | text (s : String) : ValueRel E (.text s) (.text s)
  | list {e f : Expr} : E e f → ValueRel E (.list e) (.list f)
  | function {f g : Function} : FunctionRel E f g → ValueRel E (.function f) (.function g)

/-- Related answers, or the same failure. -/
def ExceptRel {ε α β : Type} (A : α → β → Prop) : Except ε α → Except ε β → Prop
  | .ok a, .ok b => A a b
  | .error e, .error e' => e = e'
  | _, _ => False

/-- Builtins that give related answers to related arguments at related places. -/
inductive BuiltinRel (E : Expr → Expr → Prop) (S : Site → Site → Prop) :
    Builtin → Builtin → Prop where
  | eager {f g : List Value → Except EvalError Value} :
      (∀ vs ws, List.Forall₂ (ValueRel E) vs ws → ExceptRel (ValueRel E) (f vs) (g ws)) →
      BuiltinRel E S (.eager f) (.eager g)
  | lazy {f g : Site → List Expr → Except EvalError Value} :
      (∀ x y es fs, S x y → List.Forall₂ E es fs → ExceptRel (ValueRel E) (f x es) (g y fs)) →
      BuiltinRel E S (.lazy f) (.lazy g)

/-- Related expressions have the same shape and atoms, and related parts. -/
structure Congruent (E : Expr → Expr → Prop) : Prop where
  atom : ∀ {a : Token} {e : Expr}, E (.atom a) e → ∃ b, e = .atom b ∧ a.kind = b.kind ∧
    a.text = b.text
  list : ∀ {p : Position} {es : List Expr} {e : Expr}, E (.list p es) e →
    ∃ q fs, e = .list q fs ∧ List.Forall₂ E es fs

section Relations

variable {E : Expr → Expr → Prop}

mutual

theorem Congruent.alike (hE : Congruent E) : ∀ {e f : Expr}, E e f → e.Alike f
  | .atom a, f, h => by
    obtain ⟨b, rfl, hkind, htext⟩ := hE.atom h
    exact ⟨hkind, htext⟩
  | .list p es, f, h => by
    obtain ⟨q, fs, rfl, hall⟩ := hE.list h
    exact Congruent.alikeAll hE hall

theorem Congruent.alikeAll (hE : Congruent E) : ∀ {es fs : List Expr}, List.Forall₂ E es fs →
    Expr.AlikeAll es fs
  | [], [], _ => trivial
  | _ :: _, _ :: _, .cons h hall => ⟨Congruent.alike hE h, Congruent.alikeAll hE hall⟩

end

theorem Congruent.encodeOption_eq (hE : Congruent E) {e f : Option Expr} (h : Option.Rel E e f) :
    Expr.encodeOption e = Expr.encodeOption f := by
  cases h with
  | none => rfl
  | some he => exact (hE.alike he).encode_eq

theorem FunctionRel.display_eq (hE : Congruent E) {f g : Function} (h : FunctionRel E f g) :
    f.display = g.display := by
  rw [Function.display, Function.display, h.name, hE.encodeOption_eq h.param]

theorem ValueRel.type_eq {v w : Value} (h : ValueRel E v w) : v.type = w.type := by
  cases h <;> rfl

theorem ValueRel.display_eq (hE : Congruent E) {v w : Value} (h : ValueRel E v w) :
    v.display = w.display := by
  cases h with
  | list he => exact (hE.alike he).encode_eq
  | function hf => exact hf.display_eq hE
  | _ => rfl

theorem ValueRel.number?_eq {v w : Value} (h : ValueRel E v w) : v.number? = w.number? := by
  cases h <;> rfl

theorem ValueRel.ofLiteral (l : Literal) : ValueRel E (.ofLiteral l) (.ofLiteral l) := by
  cases l <;> constructor

theorem ValueRel.toValue (n : Number) : ValueRel E n.toValue n.toValue := by
  cases n <;> constructor

theorem ValueRel.apply (hE : Congruent E) (op : Operator) {a a' b b' : Value} (ha : ValueRel E a a')
    (hb : ValueRel E b b') : ExceptRel (ValueRel E) (op.apply a b) (op.apply a' b') := by
  unfold Operator.apply
  rw [← ha.number?_eq, ← hb.number?_eq, ← ha.display_eq hE, ← hb.display_eq hE]
  split
  · rfl
  · rfl
  · split
    · exact .toValue _
    · rfl

theorem ValueRel.raw_eq (hE : Congruent E) {v w : Value} (h : ValueRel E v w) : v.raw = w.raw := by
  have hdisplay := h.display_eq hE
  cases h with
  | text s => rfl
  | _ => exact hdisplay

/-! Each builtin looks at no more than kinds and texts. -/

variable {S : Site → Site → Prop}

theorem BuiltinRel.format (hE : Congruent E) : BuiltinRel E S .format .format := by
  refine .eager fun vs ws h => ?_
  cases h with
  | nil => rfl
  | @cons v w vs ws hv hvs =>
    have hraw : vs.map (fun v => v.raw.toList) = ws.map fun v => v.raw.toList :=
      map_eq_of_forall₂ (fun v w hv => by rw [hv.raw_eq hE]) hvs
    cases hv with
    | text template =>
      simp only [hraw]
      exact .text _
    | _ => rfl

theorem BuiltinRel.count : BuiltinRel E S .count .count := by
  refine .lazy fun x y es fs _ h => ?_
  rw [h.length_eq]
  exact .int _

theorem BuiltinRel.last : BuiltinRel E S .last .last := by
  refine .eager fun vs ws h => ?_
  induction h with
  | nil => exact .nil
  | @cons v w vs ws hv hvs ih =>
    cases hvs with
    | nil => exact hv
    | cons _ _ => simpa using ih

theorem BuiltinRel.source (hE : Congruent E) : BuiltinRel E S .source .source := by
  refine .lazy fun x y es fs _ h => ?_
  rw [(hE.alikeAll h).encodeAll_eq]
  exact .text _

theorem BuiltinRel.place (hS : ∀ {x y}, S x y → x = y) : BuiltinRel E S .place .place := by
  refine .lazy fun x y es fs hxy _ => ?_
  rw [hS hxy]
  exact .text _

theorem BuiltinRel.failing (reason : String) : BuiltinRel E S (.failing reason) (.failing reason) :=
  .lazy fun _ _ _ _ _ _ => rfl

end Relations

theorem builtin?_of_defaults {ctx : Context} (h : ctx.builtins = Builtin.defaults) {name : String}
    {b : Builtin} (hb : ctx.builtin? name = some b) : b = .format := by
  rw [Context.builtin?, h] at hb
  obtain ⟨before, after, hsplit, -⟩ := List.lookup_eq_some_iff.1 hb
  have hmem : (name, b) ∈ Builtin.defaults := by rw [hsplit]; simp
  exact (Prod.mk.inj (List.mem_singleton.1 hmem)).2

section Reflexive

variable {E : Expr → Expr → Prop} (hE : ∀ e, E e e)
include hE

theorem FunctionRel.refl (f : Function) : FunctionRel E f f :=
  ⟨rfl, optionRel_refl hE _, List.forall₂_same.2 fun e _ => hE e⟩

theorem ValueRel.refl (v : Value) : ValueRel E v v := by
  cases v with
  | list e => exact .list (hE e)
  | function f => exact .function (.refl hE f)
  | _ => constructor

end Reflexive

/-! For equal expressions all of these relations are equality. -/

section Equal

variable {S : Site → Site → Prop}

theorem congruent_eq : Congruent Eq where
  atom {a _} h := ⟨a, h.symm, rfl, rfl⟩
  list {p es _} h := ⟨p, es, h.symm, List.forall₂_same.2 fun _ _ => rfl⟩

theorem FunctionRel.eq {f g : Function} (h : FunctionRel Eq f g) : f = g := by
  obtain ⟨name, param, body⟩ := f
  obtain ⟨name', param', body'⟩ := g
  obtain rfl : name = name' := h.name
  obtain rfl : body = body' := List.forall₂_eq_eq_eq ▸ h.body
  rcases optionRel_cases h.param with ⟨hf, hg⟩ | ⟨e, e', hf, hg, he⟩
  · obtain rfl : param = none := hf
    obtain rfl : param' = none := hg
    rfl
  · obtain rfl : param = some e := hf
    obtain rfl : param' = some e' := hg
    rw [he]

theorem ValueRel.eq {v w : Value} (h : ValueRel Eq v w) : v = w := by
  cases h with
  | list he => rw [he]
  | function hf => rw [hf.eq]
  | _ => rfl

theorem forall₂_valueRel_eq {vs ws : List Value} (h : List.Forall₂ (ValueRel Eq) vs ws) :
    vs = ws := by
  have h : List.Forall₂ Eq vs ws := h.imp fun _ _ hv => hv.eq
  rwa [List.forall₂_eq_eq_eq] at h

theorem ExceptRel.refl {ε α : Type} {A : α → α → Prop} (hA : ∀ a, A a a) :
    ∀ r : Except ε α, ExceptRel A r r
  | .ok a => hA a
  | .error _ => rfl

theorem BuiltinRel.refl (hS : ∀ {x y}, S x y → x = y) (b : Builtin) : BuiltinRel Eq S b b := by
  cases b with
  | eager f =>
    refine .eager fun vs ws h => ?_
    rw [forall₂_valueRel_eq h]
    exact .refl (.refl fun _ => rfl) _
  | lazy f =>
    refine .lazy fun x y es fs hxy h => ?_
    obtain rfl : es = fs := List.forall₂_eq_eq_eq ▸ h
    rw [hS hxy]
    exact .refl (.refl fun _ => rfl) _

end Equal

end ListLang
