import ListLang.Proofs.Growth
import ListLang.Proofs.Related

/-! Two evaluations side by side. A link says how their expressions and their sessions belong
together, and when the first run may stop early. If it is kept by every single action of the
evaluator, it is kept by whole evaluations: they end alike, or the first one was cut short. -/

namespace ListLang

open ListLang.Eval

structure Link where
  expr : Expr → Expr → Prop
  site : Site → Site → Prop
  session : Session → Session → Prop
  /-- The first run may stop for this reason, in this session, when the second one ends in that. -/
  cut : Halt → Session → Session → Prop

namespace Link

variable {α β γ δ : Type} (L : Link)

abbrev value : Value → Value → Prop := ValueRel L.expr

/-- How a pair of runs may end. -/
def Ends (A : α → β → Prop) : EStateM.Result Halt Session α → EStateM.Result Halt Session β → Prop
  | .ok a s, .ok b t => A a b ∧ L.session s t
  | .ok _ _, .error _ _ => False
  | .error h s, r => L.cut h s (final r) ∨ ∃ t, r = .error h t ∧ L.session s t

/-- From linked sessions the two computations end as they may. -/
def Follows (A : α → β → Prop) (m : Eval α) (n : Eval β) : Prop :=
  ∀ s t, L.session s t → L.Ends A (m s) (n t)

/-- What a link has to keep, one action at a time, for runs under the contexts `c` and `d`. -/
structure Sound (c d : Context) : Prop where
  congruent : Congruent L.expr
  cut_grows : ∀ {h s t u}, L.cut h s t → t.Grows u → L.cut h s u
  depth : ∀ {s t}, L.session s t → s.depth = t.depth
  lookup : ∀ {s t}, L.session s t → ∀ name,
    Option.Rel L.value (s.env.lookup? name) (t.env.lookup? name)
  function : ∀ {s t}, L.session s t → ∀ name,
    Option.Rel (FunctionRel L.expr) (s.env.function? name) (t.env.function? name)
  site : ∀ {s t}, L.session s t → L.site (c.site s) (d.site t)
  builtin : ∀ name, Option.Rel (BuiltinRel L.expr L.site) (c.builtin? name) (d.builtin? name)
  define : ∀ {f g}, FunctionRel L.expr f g → L.Follows Eq (addFunction c f) (addFunction d g)
  call : ∀ {f g}, FunctionRel L.expr f g → L.Follows Eq (addCall c f) (addCall d g)
  record : ∀ {e f v w}, L.expr e f → L.value v w → L.Follows Eq (record c e v) (record d f w)

/-- Runs of the same expressions. -/
abbrev same (session : Session → Session → Prop) (cut : Halt → Session → Session → Prop) : Link :=
  ⟨Eq, Eq, session, cut⟩

/-- Evaluators of inner expressions that belong together. -/
structure Evaluates (ev ew : Expr → Eval Value) : Prop where
  follows : ∀ {e f}, L.expr e f → L.Follows L.value (ev e) (ew f)
  grows : ∀ f, Moves Session.Grows (ew f)

section Follows

variable {L} {A : α → β → Prop} {B : γ → δ → Prop}

/-- Both runs give an answer, both fail for the same reason, or the first one is cut. -/
theorem Ends.cases {r : EStateM.Result Halt Session α} {q : EStateM.Result Halt Session β}
    (h : L.Ends A r q) :
    (∃ a b s t, r = .ok a s ∧ q = .ok b t ∧ A a b ∧ L.session s t) ∨
    (∃ e s t, r = .error e s ∧ q = .error e t ∧ L.session s t) ∨
    (∃ e s, r = .error e s ∧ L.cut e s (final q)) := by
  cases r with
  | ok a s =>
    cases q with
    | ok b t => exact Or.inl ⟨a, b, s, t, rfl, rfl, h⟩
    | error e t => exact h.elim
  | error e s =>
    rcases h with hcut | ⟨t, rfl, hst⟩
    · exact Or.inr (Or.inr ⟨e, s, rfl, hcut⟩)
    · exact Or.inr (Or.inl ⟨e, s, t, rfl, rfl, hst⟩)

theorem Follows.mono {B : α → β → Prop} {m : Eval α} {n : Eval β} (h : L.Follows A m n)
    (hAB : ∀ a b, A a b → B a b) : L.Follows B m n := by
  intro s t hst
  rcases (h s t hst).cases with ⟨a, b, s', t', hs, ht, hab, hst'⟩ | ⟨e, s', t', hs, ht, hst'⟩ |
    ⟨e, s', hs, hcut⟩
  · rw [hs, ht]
    exact ⟨hAB a b hab, hst'⟩
  · rw [hs, ht]
    exact Or.inr ⟨t', rfl, hst'⟩
  · rw [hs]
    exact Or.inl hcut

theorem Follows.answer_eq {m n : Eval α} (h : L.Follows Eq m n) (hcut : ∀ h s t, ¬L.cut h s t)
    {s t : Session}
    (hst : L.session s t) : answer (m s) = answer (n t) ∧
      L.session (final (m s)) (final (n t)) := by
  rcases (h s t hst).cases with ⟨a, b, s', t', hs, ht, hab, hst'⟩ | ⟨e, s', t', hs, ht, hst'⟩ |
    ⟨e, s', -, h⟩
  · rw [hs, ht, hab]
    exact ⟨rfl, hst'⟩
  · rw [hs, ht]
    exact ⟨rfl, hst'⟩
  · exact absurd h (hcut _ _ _)

theorem follows_pure {a : α} {b : β} (h : A a b) : L.Follows A (pure a) (pure b) :=
  fun _ _ hs => ⟨h, hs⟩

theorem follows_fail (e : EvalError) : L.Follows A (fail e) (fail e) :=
  fun _ t hs => Or.inr ⟨t, rfl, hs⟩

theorem follows_ofExcept : ∀ {r : Except EvalError α} {q : Except EvalError β}, ExceptRel A r q →
    L.Follows A (ofExcept r) (ofExcept q)
  | .ok _, .ok _, h => follows_pure h
  | .error e, .error _, h => by
    cases h
    exact follows_fail e

theorem final_bind_grows {m : Eval β} {f : β → Eval δ} (hf : ∀ b, Moves Session.Grows (f b))
    (s : Session) :
    (final (m s)).Grows (final ((m >>= f) s)) := by
  cases hs : m s with
  | ok b t =>
    rw [bind_of_ok hs]
    exact hf b t
  | error h t =>
    rw [bind_of_error hs]
    exact .refl t

/-- Computations follow one after the other, if what the second run still does leaves the cut of the
first one as it is. -/
theorem Follows.bind {m : Eval α} {n : Eval β} {f : α → Eval γ} {g : β → Eval δ}
    (hm : L.Follows A m n) (hf : ∀ a b, A a b → L.Follows B (f a) (g b))
    (hcut : ∀ h s t, L.cut h s (final (n t)) → L.cut h s (final ((n >>= g) t))) :
    L.Follows B (m >>= f) (n >>= g) := by
  intro s t hst
  rcases (hm s t hst).cases with ⟨a, b, s', t', hs, ht, hab, hst'⟩ | ⟨e, s', t', hs, ht, hst'⟩ |
    ⟨e, s', hs, h⟩
  · rw [bind_of_ok hs, bind_of_ok ht]
    exact hf a b hab s' t' hst'
  · rw [bind_of_error hs, bind_of_error ht]
    exact Or.inr ⟨t', rfl, hst'⟩
  · rw [bind_of_error hs]
    exact Or.inl (hcut e s' t h)

/-- Where the first run is cut, the second only goes on to grow. -/
theorem follows_bind {c d : Context} (hL : L.Sound c d) {m : Eval α} {n : Eval β} {f : α → Eval γ}
    {g : β → Eval δ} (hm : L.Follows A m n) (hf : ∀ a b, A a b → L.Follows B (f a) (g b))
    (hg : ∀ b, Moves Session.Grows (g b)) : L.Follows B (m >>= f) (n >>= g) :=
  hm.bind hf fun _ _ t hcut => hL.cut_grows hcut (final_bind_grows hg t)

end Follows

/-- Runs of the same expressions in the same environment, under contexts that builtins cannot tell
apart. -/
theorem sound_same {session : Session → Session → Prop} {cut : Halt → Session → Session → Prop}
    {c d : Context} (hbuiltins : c.builtins = d.builtins) (hsite : ∀ s, c.site s = d.site s)
    (hcut : ∀ {h s t u}, cut h s t → t.Grows u → cut h s u)
    (hdepth : ∀ {s t}, session s t → s.depth = t.depth) (henv : ∀ {s t}, session s t →
      s.env = t.env)
    (hdefine : ∀ f, (same session cut).Follows Eq (addFunction c f) (addFunction d f))
    (hcall : ∀ f, (same session cut).Follows Eq (addCall c f) (addCall d f))
    (hrecord : ∀ e v, (same session cut).Follows Eq (record c e v) (record d e v)) :
    (same session cut).Sound c d where
  congruent := congruent_eq
  cut_grows := hcut
  depth := hdepth
  lookup {s t} hst name := by
    rw [henv hst]
    exact optionRel_refl (.refl fun _ => rfl) _
  function {s t} hst name := by
    rw [henv hst]
    exact optionRel_refl (.refl fun _ => rfl) _
  site {s t} hst := by
    show c.site s = d.site t
    rw [hsite, Context.site, Context.site, hdepth hst]
  builtin name := by
    rw [Context.builtin?, Context.builtin?, hbuiltins]
    exact optionRel_refl (BuiltinRel.refl fun h => h) _
  define {f g} hfg := by
    obtain rfl := FunctionRel.eq hfg
    exact hdefine f
  call {f g} hfg := by
    obtain rfl := FunctionRel.eq hfg
    exact hcall f
  record {e f v w} hef hvw := by
    obtain rfl : e = f := hef
    obtain rfl := ValueRel.eq hvw
    exact hrecord e v

/-! Sequences of inner expressions, for any relations of expressions and of values. -/

/-- Evaluators that give values related by `V` to expressions related by `E`. -/
structure Pairs (E : Expr → Expr → Prop) (V : Value → Value → Prop) (ev ew : Expr → Eval Value) :
    Prop where
  follows : ∀ {e f}, E e f → L.Follows V (ev e) (ew f)
  grows : ∀ f, Moves Session.Grows (ew f)
  cut_grows : ∀ {h s t u}, L.cut h s t → t.Grows u → L.cut h s u

section Pairs

variable {L} {E : Expr → Expr → Prop} {V : Value → Value → Prop} {ev ew : Expr → Eval Value}
variable (hev : L.Pairs E V ev ew) (d : Context)
include hev

theorem Pairs.bind {A : α → β → Prop} {B : γ → δ → Prop} {m : Eval α} {n : Eval β} {f : α → Eval γ}
    {g : β → Eval δ} (hm : L.Follows A m n) (hf : ∀ a b, A a b → L.Follows B (f a) (g b))
    (hg : ∀ b, Moves Session.Grows (g b)) : L.Follows B (m >>= f) (n >>= g) :=
  hm.bind hf fun _ _ t hcut => hev.cut_grows hcut (final_bind_grows hg t)

include d

theorem Pairs.evalEach {es fs : List Expr} (h : List.Forall₂ E es fs) :
    L.Follows (List.Forall₂ V) (evalEach ev es) (evalEach ew fs) := by
  induction h with
  | nil => exact follows_pure .nil
  | @cons e f es fs he _ ih =>
    refine hev.bind (hev.follows he) (fun v w hv => ?_) fun _ => ?_
    · exact hev.bind ih (fun vs ws hvs => follows_pure (.cons hv hvs))
        fun _ => (grows_steady d).pure _
    · exact (grows_steady d).bind ((grows_steady d).evalEach hev.grows fs)
        fun _ => (grows_steady d).pure _

theorem Pairs.evalBody {v w : Value} {es fs : List Expr} (hv : V v w) (h : List.Forall₂ E es fs) :
    L.Follows V (evalBody ev v es) (evalBody ew w fs) := by
  induction h generalizing v w with
  | nil => exact follows_pure hv
  | @cons e f es fs he _ ih =>
    exact hev.bind (hev.follows he) (fun v w hv => ih hv)
      fun w => (grows_steady d).evalBody hev.grows w fs

theorem Pairs.evalArithmetic {op : Operator}
    (hop : ∀ {a a' b b'}, V a a' → V b b' → ExceptRel V (op.apply a b) (op.apply a' b'))
      {es fs : List Expr}
    (h : List.Forall₂ E es fs) : L.Follows V (evalArithmetic ev op es)
      (evalArithmetic ew op fs) := by
  by_cases hlen : es.length = 2
  · obtain ⟨x, y, rfl⟩ := List.length_eq_two.1 hlen
    obtain ⟨x', fs', hx, hfs', rfl⟩ := List.forall₂_cons_left_iff.1 h
    obtain ⟨y', fs'', hy, hnil, rfl⟩ := List.forall₂_cons_left_iff.1 hfs'
    obtain rfl := List.forall₂_nil_left_iff.1 hnil
    refine hev.bind (hev.follows hx) (fun v v' hv => ?_) fun _ => ?_
    · exact hev.bind (hev.follows hy) (fun w w' hw => follows_ofExcept (hop hv hw))
        fun _ => (grows_steady d).ofExcept _
    · exact (grows_steady d).bind (hev.grows y') fun _ => (grows_steady d).ofExcept _
  · rw [evalArithmetic_of_length ev op hlen, evalArithmetic_of_length ew op (h.length_eq ▸ hlen),
      h.length_eq]
    exact follows_fail _

end Pairs

section Evaluator

variable {L} {c d : Context} (hL : L.Sound c d) {ev ew : Expr → Eval Value}
    (hev : L.Evaluates ev ew)
include hL

theorem Sound.evalAtom {a b : Token} (h : L.expr (.atom a) (.atom b)) :
    L.Follows L.value (evalAtom a) (evalAtom b) := by
  obtain ⟨b', hb, -, htext⟩ := hL.congruent.atom h
  cases hb
  unfold ListLang.evalAtom Expr.literal
  simp only
  rw [htext]
  cases Literal.ofText? b.text with
  | some l => exact follows_pure (.ofLiteral l)
  | none => exact follows_fail _

include hev

theorem Sound.pairs : L.Pairs L.expr L.value ev ew := ⟨hev.follows, hev.grows, hL.cut_grows⟩

theorem Sound.evalEach {es fs : List Expr} (h : List.Forall₂ L.expr es fs) :
    L.Follows (List.Forall₂ L.value) (evalEach ev es) (evalEach ew fs) :=
      (hL.pairs hev).evalEach d h

theorem Sound.evalBody {v w : Value} {es fs : List Expr} (hv : L.value v w)
    (h : List.Forall₂ L.expr es fs) :
    L.Follows L.value (evalBody ev v es) (evalBody ew w fs) := (hL.pairs hev).evalBody d hv h

theorem Sound.evalArithmetic (op : Operator) {es fs : List Expr} (h : List.Forall₂ L.expr es fs) :
    L.Follows L.value (evalArithmetic ev op es) (evalArithmetic ew op fs) :=
  (hL.pairs hev).evalArithmetic d (fun ha hb => ha.apply hL.congruent op hb) h

omit hev in
theorem Sound.evalDefinition {es fs : List Expr} (h : List.Forall₂ L.expr es fs) :
    L.Follows L.value (evalDefinition c es) (evalDefinition d fs) := by
  cases h with
  | nil => exact follows_fail _
  | @cons e f es fs he hes =>
    cases hes with
    | nil =>
      rw [evalDefinition_singleton, evalDefinition_singleton]
      exact follows_fail _
    | @cons param param' body body' hparam hbody =>
      cases e with
      | atom name =>
        obtain ⟨name', rfl, -, htext⟩ := hL.congruent.atom he
        have hf : FunctionRel L.expr ⟨name.text, some param, body⟩ ⟨name'.text,
          some param', body'⟩ :=
          ⟨htext, .some hparam, hbody⟩
        rw [evalDefinition_atom, evalDefinition_atom]
        exact follows_bind hL (hL.define hf) (fun _ _ _ => follows_pure (.function hf))
          fun _ => (grows_steady d).pure _
      | list p xs =>
        obtain ⟨q, ys, rfl, -⟩ := hL.congruent.list he
        have henc := (hL.congruent.alike he).encode_eq
        unfold ListLang.evalDefinition
        simp only
        rw [henc]
        exact follows_fail _

theorem Sound.evalBuiltin {es fs : List Expr} (h : List.Forall₂ L.expr es fs) {a b : Builtin}
    (hb : BuiltinRel L.expr L.site a b) : L.Follows L.value (evalBuiltin c ev es a)
      (evalBuiltin d ew fs b) := by
  cases hb with
  | eager hf =>
    exact follows_bind hL (hL.evalEach hev h) (fun vs ws hvs => follows_ofExcept (hf vs ws hvs))
      fun _ => (grows_steady d).ofExcept _
  | @lazy f g hf =>
    intro s t hst
    exact follows_ofExcept (hf _ _ es fs (hL.site hst) h) s t hst

theorem Sound.evalFunction {f g : Function} (h : FunctionRel L.expr f g) :
    L.Follows L.value (evalFunction c ev f) (evalFunction d ew g) := by
  rw [evalFunction_eq, evalFunction_eq]
  exact follows_bind hL (hL.call h) (fun _ _ _ => hL.evalBody hev .nil h.body)
    fun _ => (grows_steady d).evalBody hev.grows _ _

theorem Sound.evalCall (name : String) {es fs : List Expr} (h : List.Forall₂ L.expr es fs) :
    L.Follows L.value (evalCall c ev name es) (evalCall d ew name fs) := by
  intro s t hst
  rcases optionRel_cases (hL.lookup hst name) with ⟨hl, hl'⟩ | ⟨v, w, hl, hl', hv⟩
  · rcases optionRel_cases (hL.function hst name) with ⟨hf, hf'⟩ | ⟨f, g, hf, hf', hfg⟩
    · rcases optionRel_cases (hL.builtin name) with ⟨hb, hb'⟩ | ⟨a, b, hb, hb', hab⟩
      · rw [evalCall_of_unbound hl hf hb, evalCall_of_unbound hl' hf' hb']
        exact Or.inr ⟨t, rfl, hst⟩
      · rw [evalCall_of_builtin hl hf hb, evalCall_of_builtin hl' hf' hb']
        exact hL.evalBuiltin hev h hab s t hst
    · rw [evalCall_of_function hl hf, evalCall_of_function hl' hf']
      exact hL.evalFunction hev hfg s t hst
  · rw [evalCall_of_lookup hl, evalCall_of_lookup hl']
    exact ⟨hv, hst⟩

theorem Sound.evalList {p q : Position} {es fs : List Expr} (h : L.expr (.list p es) (.list q fs)) :
    L.Follows L.value (evalList c ev p es) (evalList d ew q fs) := by
  obtain ⟨q', fs', heq, hall⟩ := hL.congruent.list h
  cases heq
  cases hall with
  | nil => exact follows_pure .nil
  | @cons head head' args args' hhead hargs =>
    cases head with
    | list p xs =>
      obtain ⟨q, ys, rfl, -⟩ := hL.congruent.list hhead
      have henc := (hL.congruent.alike hhead).encode_eq
      unfold ListLang.evalList
      simp only
      rw [henc]
      exact follows_fail _
    | atom a =>
      -- the head decides the form by its kind and its text, which both sides share
      obtain ⟨b, rfl, hkind, htext⟩ := hL.congruent.atom hhead
      have hop : operatorOf? a = operatorOf? b := by rw [operatorOf?, operatorOf?, hkind, htext]
      unfold ListLang.evalList
      simp only
      rw [hop, htext]
      split
      · exact hL.evalArithmetic hev _ hargs
      · split
        · exact follows_pure (.list h)
        · split
          · exact hL.evalDefinition hargs
          · exact hL.evalCall hev _ hargs

theorem Sound.recorded {p q : Position} {es fs : List Expr} (h : L.expr (.list p es) (.list q fs)) :
    L.Follows L.value (recorded c ev p es) (recorded d ew q fs) := by
  refine follows_bind hL (hL.evalList hev h) (fun v w hv => ?_) fun w => ?_
  · exact follows_bind hL (hL.record h hv) (fun _ _ _ => follows_pure hv)
      fun _ => (grows_steady d).pure _
  · exact (grows_steady d).bind ((grows_steady d).record _ w) fun _ => (grows_steady d).pure _

end Evaluator

/-- A link outside a list and a link inside it. -/
structure Nests (K L : Link) : Prop where
  down : ∀ {s t}, K.session s t → L.session s.down t.down
  up : ∀ {s t}, L.session s t → K.session s.up t.up
  cut : ∀ {h s t}, L.cut h s t → K.cut h s.up t.up

theorem Nests.inside {K L : Link} (hKL : K.Nests L) {A : α → β → Prop} {m : Eval α} {n : Eval β}
    (h : L.Follows A m n) : K.Follows A (inside m) (inside n) := by
  intro s t hst
  have h := (h s.down t.down (hKL.down hst)).cases
  rcases h with ⟨a, b, s', t', hs, ht, hab, hst'⟩ | ⟨e, s', t', hs, ht, hst'⟩ | ⟨e, s', hs, hcut⟩
  · rw [inside_of_ok hs, inside_of_ok ht]
    exact ⟨hab, hKL.up hst'⟩
  · rw [inside_of_error hs, inside_of_error ht]
    exact Or.inr ⟨t'.up, rfl, hKL.up hst'⟩
  · rw [inside_of_error hs]
    refine Or.inl ?_
    rw [final_inside]
    exact hKL.cut hcut

/-- Under the same limit the two evaluations meet their barriers together. It remains to follow
atoms, and lists as far as their own forms go. -/
theorem pairs_eval {L : Link} {E : Expr → Expr → Prop} {V : Value → Value → Prop} {c d : Context}
    (hlimit : c.limit = d.limit) (hdepth : ∀ {s t}, L.session s t → s.depth = t.depth)
      (hnest : L.Nests L)
    (hcut : ∀ {h s t u}, L.cut h s t → t.Grows u → L.cut h s u)
    (hatom : ∀ {a f}, E (.atom a) f → ∃ b, f = .atom b ∧ L.Follows V (evalAtom a) (evalAtom b))
    (hlist : ∀ {p es f}, E (.list p es) f → ∃ q fs, f = .list q fs ∧
      ∀ ev ew, L.Pairs E V ev ew → L.Follows V (recorded c ev p es) (recorded d ew q fs)) :
    ∀ fuel, L.Pairs E V (eval c fuel) (eval d fuel) := by
  -- on the fuel: a list that can be entered has one level to spare, and the rest is for what stands
  -- in it
  intro fuel
  induction fuel using Nat.strong_induction_on with
  | _ fuel ih =>
    refine ⟨fun {e f} hef => ?_, (grows_steady d).eval fuel, hcut⟩
    cases e with
    | atom a =>
      obtain ⟨b, rfl, hfollows⟩ := hatom hef
      rw [eval_atom, eval_atom]
      exact hfollows
    | list p es =>
      obtain ⟨q, fs, rfl, hfollows⟩ := hlist hef
      intro s t hst
      have hbarrier : c.barrier? fuel s.depth = d.barrier? fuel t.depth := by
        rw [Context.barrier?, Context.barrier?, hlimit, hdepth hst]
      cases hb : c.barrier? fuel s.depth with
      | some h =>
        rw [eval_list_barrier hb, eval_list_barrier (hbarrier ▸ hb)]
        exact Or.inr ⟨t, rfl, hst⟩
      | none =>
        obtain ⟨n, rfl⟩ := fuel_of_barrier_none hb
        rw [eval_list_inside hb, eval_list_inside (hbarrier ▸ hb)]
        exact hnest.inside (hfollows _ _ (ih n (Nat.lt_succ_self n))) s t hst

theorem Sound.eval {L : Link} {c d : Context} (hL : L.Sound c d) (hlimit : c.limit = d.limit)
    (hnest : L.Nests L) (fuel : Nat) : L.Evaluates (eval c fuel) (eval d fuel) := by
  have hpairs : L.Pairs L.expr L.value (ListLang.eval c fuel) (ListLang.eval d fuel) := by
    refine pairs_eval hlimit hL.depth hnest hL.cut_grows (fun hef => ?_) (fun hef => ?_) fuel
    · obtain ⟨b, rfl, -, -⟩ := hL.congruent.atom hef
      exact ⟨b, rfl, hL.evalAtom hef⟩
    · obtain ⟨q, fs, rfl, -⟩ := hL.congruent.list hef
      exact ⟨q, fs, rfl, fun ev ew hev => hL.recorded ⟨hev.follows, hev.grows⟩ hef⟩
  exact ⟨hpairs.follows, hpairs.grows⟩

theorem Sound.evalAll {L : Link} {c d : Context} (hL : L.Sound c d) (hlimit : c.limit = d.limit)
    (hfuel : c.fuel = d.fuel) (hnest : L.Nests L) {es fs : List Expr}
      (h : List.Forall₂ L.expr es fs) :
    L.Follows (List.Forall₂ L.value) (evalAll c es) (evalAll d fs) := by
  unfold ListLang.evalAll
  rw [hfuel]
  exact hL.evalEach (hL.eval hlimit hnest d.fuel) h

end Link

end ListLang
