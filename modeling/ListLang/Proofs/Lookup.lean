import ListLang.Proofs.Simulation

/-! What an environment is to the evaluator: a look-up of names. Two environments that answer every
name alike cannot be told apart by any evaluation, and after it they still answer alike. Entries
that change no answer are therefore without effect for good. -/

namespace ListLang

open Eval

/-! Look-ups and what is appended. -/

namespace Environment

variable {env env' : Environment}

theorem function?_define (env : Environment) (f : Function) (name : String) :
    (env.define f).function? name = (env.function? name).or (if f.name = name then some f
      else none) := by
  simp [define, function?, Array.find?_push]

theorem lookup?_bind (env : Environment) (param : Option Expr) (value : Option Value)
    (name : String) :
    (env.bind param value).lookup? name =
      (env.lookup? name).or (if Binding.isFor ⟨param, value⟩ name then some (value.getD .nil)
        else none) := by
  simp only [bind, lookup?, Array.find?_push]
  cases env.bindings.find? (·.isFor name) with
  | some b => rfl
  | none =>
    simp only [Option.map_none, Option.none_or]
    split <;> rfl

/-- Environments that answer every name alike. -/
structure Agrees (env env' : Environment) : Prop where
  lookup : ∀ name, env.lookup? name = env'.lookup? name
  function : ∀ name, env.function? name = env'.function? name

theorem Agrees.define (h : env.Agrees env') (f : Function) :
    (env.define f).Agrees (env'.define f) :=
  ⟨h.lookup, fun name => by rw [function?_define, function?_define, h.function]⟩

theorem Agrees.bind (h : env.Agrees env') (param : Option Expr) (value : Option Value) :
    (env.bind param value).Agrees (env'.bind param value) :=
  ⟨fun name => by rw [lookup?_bind, lookup?_bind, h.lookup], h.function⟩

theorem define_agrees {f g : Function} (hf : env.function? f.name = some g) :
    (env.define f).Agrees env := by
  refine ⟨fun _ => rfl, fun name => ?_⟩
  rw [function?_define]
  split
  · rename_i hname
    rw [← hname, hf]
    rfl
  · exact Option.or_none

/-- A binding is without effect if every name it is for is bound before. -/
theorem bind_agrees {param : Option Expr} {value : Option Value}
    (h : ∀ name, Binding.isFor ⟨param, value⟩ name = true → ∃ v, env.lookup? name = some v) :
    (env.bind param value).Agrees env := by
  refine ⟨fun name => ?_, fun _ => rfl⟩
  rw [lookup?_bind]
  split
  · rename_i hfor
    obtain ⟨v, hv⟩ := h name hfor
    rw [hv]
    rfl
  · exact Option.or_none

end Environment

/-! Two runs in step. -/

/-- Two sessions that came from `s₀` and `t₀` in step: the same depth, the same room for records,
the same answers to every name, and the same additions to trace and journal. -/
structure Session.InStep (ctx : Context) (s₀ t₀ s t : Session) : Prop where
  depth : s.depth = t.depth
  room : ctx.roomLeft s = ctx.roomLeft t
  env : s.env.Agrees t.env
  trace : ∃ records, s.trace.toList = s₀.trace.toList ++ records ∧ t.trace.toList =
    t₀.trace.toList ++ records
  journal : ∃ entries,
    s.journal.toList = s₀.journal.toList ++ entries ∧ t.journal.toList =
      t₀.journal.toList ++ entries

/-- Contexts that differ at most in what names them, with builtins that do not show it. -/
structure Context.Peers (c d : Context) : Prop where
  limit : c.limit = d.limit
  fuel : c.fuel = d.fuel
  tracer : c.tracer = d.tracer
  journaling : c.journaling = d.journaling
  builtin : ∀ name, Option.Rel (BuiltinRel Eq fun x y => c = d → x = y) (c.builtin? name)
    (d.builtin? name)

theorem Context.Peers.refl (c : Context) : c.Peers c where
  limit := rfl
  fuel := rfl
  tracer := rfl
  journaling := rfl
  builtin _ := optionRel_refl (BuiltinRel.refl fun h => h rfl) _

theorem Context.Peers.of_defaults {c d : Context} (hlimit : c.limit = d.limit) (hpos : 0 < c.limit)
    (htracer : c.tracer = d.tracer) (hjournaling : c.journaling = d.journaling)
    (hc : c.builtins = Builtin.defaults) (hd : d.builtins = Builtin.defaults) : c.Peers d where
  limit := hlimit
  fuel := by rw [Context.fuel, Context.fuel, if_neg (by omega), if_neg (by omega), hlimit]
  tracer := htracer
  journaling := hjournaling
  builtin name := by
    have hsame : d.builtin? name = c.builtin? name := by
      rw [Context.builtin?, Context.builtin?, hc, hd]
    rw [hsame]
    cases hb : c.builtin? name with
    | none => exact .none
    | some b =>
      rw [builtin?_of_defaults hc hb]
      exact .some (.format congruent_eq)

namespace Session.InStep

variable {c d : Context} {s₀ t₀ s t : Session}

theorem start (hdepth : s.depth = t.depth) (hroom : c.roomLeft s = c.roomLeft t)
    (henv : s.env.Agrees t.env) : InStep c s t s t :=
  ⟨hdepth, hroom, henv, ⟨[], by simp⟩, ⟨[], by simp⟩⟩

variable (h : InStep c s₀ t₀ s t)
include h

theorem define (f : Function) :
    InStep c s₀ t₀ { s with env := s.env.define f } { t with env := t.env.define f } :=
  ⟨h.depth, h.room, h.env.define f, h.trace, h.journal⟩

theorem bind (param : Option Expr) (value : Option Value) :
    InStep c s₀ t₀ { s with env := s.env.bind param value }
      { t with env := t.env.bind param value } :=
  ⟨h.depth, h.room, h.env.bind param value, h.trace, h.journal⟩

theorem noting (hcd : c.journaling = d.journaling) (event : JournalEvent) (f : Function) :
    InStep c s₀ t₀ (s.noting c event f) (t.noting d event f) := by
  refine ⟨h.depth, h.room, h.env, h.trace, ?_⟩
  obtain ⟨entries, hs, ht⟩ := h.journal
  unfold Session.noting
  rw [← hcd, ← h.depth]
  split
  · exact ⟨entries ++ [⟨s.depth, event, f.display⟩], by simp [hs], by simp [ht]⟩
  · exact ⟨entries, hs, ht⟩

theorem recording (hcd : c.tracer = d.tracer) (r : TraceRecord) :
    InStep c s₀ t₀ (s.recording c r) (t.recording d r) := by
  have hd : t.recording d r = t.recording c r := by rw [Session.recording, Session.recording, hcd]
  have hroom : c.roomLeft (s.recording c r) = c.roomLeft (t.recording c r) := by
    rw [roomLeft_recording, roomLeft_recording, h.room]
  rw [hd]
  refine ⟨h.depth, hroom, h.env, ?_, h.journal⟩
  obtain ⟨records, hs, ht⟩ := h.trace
  unfold Session.recording
  split
  · exact ⟨records ++ [r], by simp [hs], by simp [ht]⟩
  · exact ⟨records, hs, ht⟩

end Session.InStep

def lookupLink (c d : Context) (s₀ t₀ : Session) : Link where
  expr := Eq
  site x y := c = d → x = y
  session := Session.InStep c s₀ t₀
  cut _ _ _ := False

section Peers

variable {c d : Context} (hcd : c.Peers d) (s₀ t₀ : Session)
include hcd

theorem lookupLink_record (e : Expr) (v : Value) :
    (lookupLink c d s₀ t₀).Follows Eq (record c e v) (record d e v) := by
  intro s t hst
  have hroom : c.canRecord s = d.canRecord t := canRecord_congr c hcd.tracer hst.room
  rw [record_run, record_run, hroom]
  split
  · exact ⟨rfl, hst.recording hcd.tracer _⟩
  · exact Or.inr ⟨t, rfl, hst⟩

theorem lookupLink_sound : (lookupLink c d s₀ t₀).Sound c d where
  congruent := congruent_eq
  cut_grows h _ := h.elim
  depth hst := hst.depth
  lookup {s t} hst name := by
    have hlookup : s.env.lookup? name = t.env.lookup? name := hst.env.lookup name
    rw [hlookup]
    exact optionRel_refl (.refl fun _ => rfl) _
  function {s t} hst name := by
    have hfunction : s.env.function? name = t.env.function? name := hst.env.function name
    rw [hfunction]
    exact optionRel_refl (.refl fun _ => rfl) _
  site {s t} hst heq := by
    have hdepth : s.depth = t.depth := hst.depth
    rw [heq, Context.site, Context.site, hdepth]
  builtin := hcd.builtin
  define {f g} hfg s t hst := by
    obtain rfl := FunctionRel.eq hfg
    rw [addFunction_run, addFunction_run]
    exact ⟨rfl, (hst.define f).noting hcd.journaling .define f⟩
  call {f g} hfg s t hst := by
    obtain rfl := FunctionRel.eq hfg
    rw [addCall_run, addCall_run]
    exact ⟨rfl, (hst.bind f.param none).noting hcd.journaling .call f⟩
  record {e f v w} hef hvw := by
    obtain rfl : e = f := hef
    obtain rfl := ValueRel.eq hvw
    exact lookupLink_record hcd s₀ t₀ e v

omit hcd in
theorem lookupLink_nests : (lookupLink c d s₀ t₀).Nests (lookupLink c d s₀ t₀) where
  down h := ⟨congrArg (· + 1) h.depth, h.room, h.env, h.trace, h.journal⟩
  up h := ⟨congrArg (· - 1) h.depth, h.room, h.env, h.trace, h.journal⟩
  cut h := h

theorem eval_inStep (fuel : Nat) (e : Expr) :
    (lookupLink c d s₀ t₀).Follows Eq (eval c fuel e) (eval d fuel e) := by
  have h := (lookupLink_sound hcd s₀ t₀).eval hcd.limit (lookupLink_nests s₀ t₀) fuel
  exact (h.follows rfl).mono fun _ _ => ValueRel.eq

theorem evalAll_inStep (es : List Expr) :
    (lookupLink c d s₀ t₀).Follows Eq (evalAll c es) (evalAll d es) := by
  have h := (lookupLink_sound hcd s₀ t₀).evalAll hcd.limit hcd.fuel (lookupLink_nests s₀ t₀)
    (List.forall₂_same.2 fun _ _ => rfl : List.Forall₂ Eq es es)
  exact h.mono fun _ _ => forall₂_valueRel_eq

end Peers

/-! Sessions go on after an error. -/

/-- What a host can do with a session. -/
inductive Action where
  | eval (e : Expr)
  | evalAll (es : List Expr)
  | define (f : Function)
  | bind (param : Option Expr) (value : Option Value)

def Action.perform (ctx : Context) : Action → Eval (List Value)
  | .eval e => do
    let v ← ListLang.eval ctx ctx.fuel e
    pure [v]
  | .evalAll es => ListLang.evalAll ctx es
  | .define f => do
    Eval.define f
    pure []
  | .bind param value => do
    Eval.bind param value
    pure []

/-- Performs actions one after the other, whatever each of them answers. -/
def performAll (ctx : Context) : List Action → Session → List (Except Halt (List Value)) × Session
  | [], s => ([], s)
  | a :: as, s =>
    let r := a.perform ctx s
    -- an error of one action leaves a session for the next
    let rest := performAll ctx as (final r)
    (answer r :: rest.1, rest.2)

section Actions

variable {ctx : Context}

theorem perform_eval (ctx : Context) (e : Expr) :
    Action.perform ctx (.eval e) = Action.perform ctx (.evalAll [e]) := by
  simp [Action.perform, evalAll, evalEach]

/-- An action moves a session along a steady relation, if the entries that a host adds do. -/
theorem Steady.perform {R : Session → Session → Prop} (hR : Steady ctx R) (a : Action)
    (hdefine : ∀ f s, a = .define f → R s { s with env := s.env.define f })
    (hbind : ∀ param value s, a = .bind param value →
      R s { s with env := s.env.bind param value }) :
    Moves R (a.perform ctx) := by
  cases a with
  | eval e =>
    rw [perform_eval]
    exact hR.evalAll [e]
  | evalAll es => exact hR.evalAll es
  | define f => exact fun s => hdefine f s rfl
  | bind param value => exact fun s => hbind param value s rfl

theorem Steady.performAll {R : Session → Session → Prop} (hR : Steady ctx R) {as : List Action}
    (has : ∀ a ∈ as, Moves R (a.perform ctx)) (s : Session) : R s (performAll ctx as s).2 := by
  induction as generalizing s with
  | nil => exact hR.refl s
  | cons a as ih =>
    have hfirst := has a List.mem_cons_self s
    exact hR.trans hfirst (ih (fun b hb => has b (List.mem_cons_of_mem _ hb)) _)

/-- Linked sessions answer alike and stay linked through any actions, if they do through each
one. -/
theorem Link.performAll_eq {L : Link} (hcut : ∀ h s t, ¬L.cut h s t)
    (hperform : ∀ a : Action, L.Follows Eq (a.perform ctx) (a.perform ctx)) (as : List Action)
      {s t : Session}
    (hst : L.session s t) :
    (performAll ctx as s).1 = (performAll ctx as t).1 ∧ L.session (performAll ctx as s).2
      (performAll ctx as t).2 := by
  induction as generalizing s t with
  | nil => exact ⟨rfl, hst⟩
  | cons a as ih =>
    obtain ⟨hanswer, hfinal⟩ := (hperform a).answer_eq hcut hst
    obtain ⟨hrest, hlast⟩ := ih hfinal
    simp only [performAll]
    exact ⟨by rw [hanswer, hrest], hlast⟩

end Actions

theorem perform_inStep (ctx : Context) (s₀ t₀ : Session) (a : Action) :
    (lookupLink ctx ctx s₀ t₀).Follows Eq (a.perform ctx) (a.perform ctx) := by
  cases a with
  | eval e =>
    rw [perform_eval]
    exact evalAll_inStep (.refl ctx) s₀ t₀ [e]
  | evalAll es => exact evalAll_inStep (.refl ctx) s₀ t₀ es
  | define f => exact fun s t hst => ⟨rfl, hst.define f⟩
  | bind param value => exact fun s t hst => ⟨rfl, hst.bind param value⟩

/-- No continuation tells the two sessions apart. -/
def Session.Interchangeable (ctx : Context) (s t : Session) : Prop :=
  ∀ as : List Action, (performAll ctx as s).1 = (performAll ctx as t).1 ∧
    Session.InStep ctx s t (performAll ctx as s).2 (performAll ctx as t).2

theorem interchangeable_of_agrees (ctx : Context) {s : Session} {env : Environment}
    (h : env.Agrees s.env) :
    Session.Interchangeable ctx { s with env := env } s :=
  fun as => Link.performAll_eq (fun _ _ _ hcut => hcut) (perform_inStep ctx _ _) as
    (.start rfl rfl h)

/-- Evaluation depends on the environment through the look-up of names only. So there is no effect,
in any continuation, of a definition of a name that is defined, of a binding of a list, and of a
binding of a name that is bound. -/
theorem evaluation_depends_on_lookup :
    (∀ c d : Context, c.limit = d.limit → 0 < c.limit → c.tracer = d.tracer →
      c.journaling = d.journaling → c.builtins = Builtin.defaults → d.builtins = Builtin.defaults →
      ∀ s t : Session, s.depth = t.depth → Reliable c.tracer ∨ c.roomLeft s = c.roomLeft t →
      s.env.Agrees t.env →
      ∀ e : Expr, answer (eval c c.fuel e s) = answer (eval d d.fuel e t) ∧
        Session.InStep c s t (final (eval c c.fuel e s)) (final (eval d d.fuel e t))) ∧
    (∀ (ctx : Context) (s : Session) (f g : Function), s.env.function? f.name = some g →
      Session.Interchangeable ctx { s with env := s.env.define f } s) ∧
    (∀ (ctx : Context) (s : Session) (p : Position) (es : List Expr) (value : Option Value),
      Session.Interchangeable ctx { s with env := s.env.bind (some (.list p es)) value } s) ∧
    (∀ (ctx : Context) (s : Session) (a : Token) (value : Option Value) (v : Value),
      s.env.lookup? a.text = some v →
      Session.Interchangeable ctx { s with env := s.env.bind (some (.atom a)) value } s) := by
  refine ⟨?_, ?_, ?_, ?_⟩
  · intro c d hlimit hpos htracer hjournaling hc hd s t hdepth hroom henv e
    have hcd := Context.Peers.of_defaults hlimit hpos htracer hjournaling hc hd
    have hstart : Session.InStep c s t s t := .start hdepth (roomLeft_eq_of_reliable c hroom) henv
    rw [← hcd.fuel]
    exact (eval_inStep hcd s t c.fuel e).answer_eq (fun _ _ _ h => h) hstart
  · intro ctx s f g hf
    exact interchangeable_of_agrees ctx (Environment.define_agrees hf)
  · intro ctx s p es value
    exact interchangeable_of_agrees ctx (Environment.bind_agrees fun name h => by cases h)
  · intro ctx s a value v hv
    refine interchangeable_of_agrees ctx (Environment.bind_agrees fun name h => ?_)
    have hname : a.text = name := by simpa [Binding.isFor, Expr.isNamed] using h
    exact ⟨v, hname ▸ hv⟩

/-- A function that calls itself, and another one of the same name. -/
def endless : Function :=
  ⟨"f", some (.atom ⟨.word, "x", ⟨1, 8⟩⟩), [.list ⟨1, 10⟩ [.atom ⟨.word, "f", ⟨1, 11⟩⟩]]⟩

def shadowed : Function := ⟨"f", none, []⟩

def endlessSession : Session := { Session.start with env := Environment.empty.define endless }

def redefinedSession : Session := { endlessSession with env := endlessSession.env.define shadowed }

/-- The same after a record, which takes no room from what has no end. -/
def tracedSession : Session := { redefinedSession with trace := #[⟨"(f)", ":nil", .nil⟩] }

def boundSession : Session :=
  { Session.start with env := Environment.empty.bind (some (.atom ⟨.word, "x", ⟨1, 1⟩⟩)) none }

theorem evaluation_depends_on_lookup_endless :
    endlessSession.env.function? shadowed.name = some endless ∧
    redefinedSession.env.Agrees endlessSession.env ∧
    tracedSession.trace.size ≠ endlessSession.trace.size ∧
    (∀ e : Expr, answer (eval (.plain "a" "0x1") defaultLimit e tracedSession) =
      answer (eval (.plain "b" "0x2") defaultLimit e endlessSession)) ∧
    Session.Interchangeable (.plain "a" "0x1") redefinedSession endlessSession ∧
    boundSession.env.lookup? "x" = some .nil ∧
    Session.Interchangeable (.plain "a" "0x1")
      { boundSession with
        env := boundSession.env.bind (some (.atom ⟨.word, "x", ⟨2, 1⟩⟩)) (some (.int 1)) }
      boundSession := by
  obtain ⟨heval, hdefine, -, hbind⟩ := evaluation_depends_on_lookup
  have hdefined : endlessSession.env.function? shadowed.name = some endless := rfl
  have hbound : boundSession.env.lookup? "x" = some .nil := rfl
  have hagrees := Environment.define_agrees hdefined
  have hreliable : Reliable (Context.plain "a" "0x1").tracer := fun t h => by cases h
  refine ⟨hdefined, hagrees, by decide, fun e => ?_, hdefine _ _ _ _ hdefined, hbound,
    hbind _ _ ⟨.word, "x", ⟨2, 1⟩⟩ _ _ hbound⟩
  exact (heval (.plain "a" "0x1") (.plain "b" "0x2") rfl (by decide) rfl rfl rfl rfl tracedSession
    endlessSession rfl (Or.inl hreliable) hagrees e).1

end ListLang
