import ListLang.Proofs.Lookup
import ListLang.Proofs.Machine

/-! Environments are only ever appended to. What a name once stood for, a variable or a function, it
stands for in every later state of the session: after each action, whether it failed or not, and at
every moment of an evaluation, even of one that does not end. -/

namespace ListLang

open Eval

/-- All entries of `env` stand at the beginning of `env'`. -/
structure Environment.Begins (env env' : Environment) : Prop where
  functions : env.functions.toList <+: env'.functions.toList
  bindings : env.bindings.toList <+: env'.bindings.toList

theorem Session.Grows.begins {s t : Session} (h : s.Grows t) : s.env.Begins t.env :=
  ⟨h.functions, h.bindings⟩

/-- The states that a session in state `s` can come to. -/
inductive Session.Leads (ctx : Context) (s : Session) : Session → Prop where
  | here : Leads ctx s s
  | action {t : Session} (a : Action) : Leads ctx s t → Leads ctx s (final (a.perform ctx t))
  | moment {t : Session} {e : Expr} {m : Machine} :
      Leads ctx s t → Machine.Reaches ctx (.start e t) m →
      Leads ctx s m.session

section Growth

variable (ctx : Context)

theorem perform_grows (a : Action) : Moves Session.Grows (a.perform ctx) :=
  (grows_steady ctx).perform a (fun f s _ => define_grows f s) fun param value s _ =>
    bind_grows param value s

theorem Session.Leads.grows {s t : Session} (h : s.Leads ctx t) : s.Grows t := by
  induction h with
  | here => exact .refl s
  | action a _ ih => exact ih.trans (perform_grows ctx a _)
  | moment _ hreaches ih => exact ih.trans hreaches.grows

theorem Session.Leads.performAll {s t : Session} (h : s.Leads ctx t) (as : List Action) :
    s.Leads ctx (performAll ctx as t).2 := by
  induction as generalizing t with
  | nil => exact h
  | cons a as ih => exact ih (h.action a)

end Growth

/-! First matches stay first. -/

namespace Environment.Begins

variable {env env' : Environment} (h : env.Begins env') {name : String}
include h

theorem lookup {v : Value} (hv : env.lookup? name = some v) : env'.lookup? name = some v := by
  rw [lookup?, ← Array.find?_toList] at hv ⊢
  obtain ⟨b, hb, rfl⟩ := Option.map_eq_some_iff.1 hv
  rw [h.bindings.find?_eq_some hb]
  rfl

theorem function {f : Function} (hf : env.function? name = some f) :
    env'.function? name = some f := by
  rw [function?, ← Array.find?_toList] at hf ⊢
  exact h.functions.find?_eq_some hf

end Environment.Begins

/-- No action takes an entry back or puts one before another. So a name that is bound keeps its
value and a name that is defined keeps its function, in all states that the session comes to. -/
theorem environment_append_only (ctx : Context) (s : Session) :
    (∀ a : Action, s.env.Begins (final (a.perform ctx s)).env) ∧
    ∀ t, s.Leads ctx t → s.env.Begins t.env ∧ ∀ name,
      (∀ v, s.env.lookup? name = some v → t.env.lookup? name = some v) ∧
      (∀ f, s.env.function? name = some f → t.env.function? name = some f) := by
  refine ⟨fun a => (perform_grows ctx a s).begins, fun t ht => ?_⟩
  have hbegins := ht.grows.begins
  exact ⟨hbegins, fun name => ⟨fun v => hbegins.lookup, fun f => hbegins.function⟩⟩

/-- A trace with room for one record, and a low limit. -/
def crowded : Context :=
  { Context.plain "run" "0x1" with limit := 3, tracer := some ⟨.yaml, some 1⟩ }

def callEndless : Action := .eval (.list ⟨1, 1⟩ [.atom ⟨.word, "f", ⟨1, 2⟩⟩])

def twoEmptyLists : Action := .evalAll [.list ⟨1, 1⟩ [], .list ⟨1, 3⟩ []]

def endlessCalled : Session := final (callEndless.perform crowded endlessSession)

/-- After a trace that could not be written, another function of the name and another value of the
variable. -/
def endlessLater : Session :=
  (performAll crowded
    [twoEmptyLists, .define shadowed, .bind (some (.atom ⟨.word, "x", ⟨1, 1⟩⟩))
      (some (.int 1))] endlessCalled).2

theorem environment_append_only_endless :
    failure? (callEndless.perform crowded endlessSession) = some (.error (.tooDeep 3)) ∧
    failure? (twoEmptyLists.perform crowded endlessCalled) = some (.error .sinkFull) ∧
    endlessCalled.Leads crowded endlessLater ∧
    endlessCalled.env.lookup? "x" = some .nil ∧ endlessLater.env.lookup? "x" = some .nil ∧
    endlessCalled.env.function? "f" = some endless ∧ endlessLater.env.function? "f" =
      some endless := by
  have hlimit : failure? (callEndless.perform crowded endlessSession) =
      some (.error (.tooDeep 3)) := by
    decide +kernel
  have hsink : failure? (twoEmptyLists.perform crowded endlessCalled) =
      some (.error .sinkFull) := by
    decide +kernel
  have hlater : endlessCalled.Leads crowded endlessLater := Session.Leads.performAll crowded .here _
  have hbound : endlessCalled.env.lookup? "x" = some .nil := rfl
  have hdefined : endlessCalled.env.function? "f" = some endless := rfl
  obtain ⟨-, hstable⟩ := (environment_append_only crowded endlessCalled).2 endlessLater hlater
  exact ⟨hlimit, hsink, hlater, hbound, (hstable "x").1 _ hbound, hdefined,
    (hstable "f").2 _ hdefined⟩

end ListLang
