import ListLang.Proofs.Lookup
import ListLang.Proofs.Machine
import ListLang.Proofs.Observation

/-! Every evaluation leaves the depth as it found it, however it ends: what was entered is left
again, on the way out of a value and of an error alike. What is left of earlier evaluations is
therefore the environment, and the room that their records have taken from a bounded sink; nothing
else of them bears on what comes later. -/

namespace ListLang

open Eval Machine

/-! Sessions with the same environment and the same room. -/

/-- What later evaluations depend on. -/
structure Session.Equivalent (ctx : Context) (s t : Session) : Prop where
  env : s.env = t.env
  depth : s.depth = t.depth
  room : ctx.roomLeft s = ctx.roomLeft t

def roomLink (ctx : Context) : Link := .same (Session.Equivalent ctx) fun _ _ _ => False

section Equivalent

variable (ctx : Context)

theorem roomLink_sound : (roomLink ctx).Sound ctx ctx := by
  refine Link.sound_same rfl (fun _ => rfl) (fun hcut _ => hcut) (·.depth) (·.env) ?_ ?_ ?_
  · intro f s t hst
    rw [addFunction_run, addFunction_run]
    exact ⟨rfl, congrArg (·.define f) hst.env, hst.depth, hst.room⟩
  · intro f s t hst
    rw [addCall_run, addCall_run]
    exact ⟨rfl, congrArg (·.bind f.param none) hst.env, hst.depth, hst.room⟩
  · intro e v s t hst
    have hroom : ctx.canRecord s = ctx.canRecord t := canRecord_congr ctx rfl hst.room
    rw [record_run, record_run, hroom]
    split
    · exact ⟨rfl, hst.env, hst.depth, by rw [roomLeft_recording, roomLeft_recording, hst.room]⟩
    · exact Or.inr ⟨t, rfl, hst⟩

theorem roomLink_nests : (roomLink ctx).Nests (roomLink ctx) where
  down h := ⟨h.env, congrArg (· + 1) h.depth, h.room⟩
  up h := ⟨h.env, congrArg (· - 1) h.depth, h.room⟩
  cut h := h

theorem eval_equivalent (fuel : Nat) (e : Expr) :
    (roomLink ctx).Follows Eq (eval ctx fuel e) (eval ctx fuel e) :=
  (((roomLink_sound ctx).eval rfl (roomLink_nests ctx) fuel).follows rfl).mono
    fun _ _ => ValueRel.eq

theorem perform_equivalent (a : Action) :
    (roomLink ctx).Follows Eq (a.perform ctx) (a.perform ctx) := by
  have hall : ∀ es, (roomLink ctx).Follows Eq (evalAll ctx es) (evalAll ctx es) := by
    intro es
    have hsame : List.Forall₂ Eq es es := List.forall₂_refl es
    have hes := (roomLink_sound ctx).evalAll rfl rfl (roomLink_nests ctx) hsame
    exact hes.mono fun _ _ => forall₂_valueRel_eq
  cases a with
  | eval e =>
    rw [perform_eval]
    exact hall [e]
  | evalAll es => exact hall es
  | define f => exact fun s t hst => ⟨rfl, congrArg (·.define f) hst.env, hst.depth, hst.room⟩
  | bind param value =>
    exact fun s t hst => ⟨rfl, congrArg (·.bind param value) hst.env, hst.depth, hst.room⟩

/-- Equivalent sessions go on alike. -/
theorem performAll_equivalent (as : List Action) {s t : Session} (hst : s.Equivalent ctx t) :
    (performAll ctx as s).1 = (performAll ctx as t).1 ∧
      (performAll ctx as s).2.Equivalent ctx (performAll ctx as t).2 :=
  Link.performAll_eq (fun _ _ _ hcut => hcut) (perform_equivalent ctx) as hst

end Equivalent

/-! The depth after actions. -/

section Depth

variable (ctx : Context)

theorem performAll_depth (as : List Action) (s : Session) :
    (performAll ctx as s).2.depth = s.depth := by
  have hsteady := depth_steady ctx
  refine (hsteady.performAll (fun a _ => ?_) s).symm
  exact hsteady.perform a (fun _ _ _ => rfl) fun _ _ _ _ => rfl

end Depth

/-- The depth is neutral. An evaluation ends at the depth at which it started, with a value and with
any error, at every level; on the way the depth counts the lists that are being evaluated. So no
session is deeper for what was evaluated in it, and two of them that have come to the same
definitions and bindings, by whatever evaluations and failures, answer every continuation alike, if
their sinks never fail or have the same room left. -/
theorem depth_is_neutral (ctx : Context) :
    (∀ (fuel : Nat) (e : Expr) (s : Session), (final (eval ctx fuel e s)).depth = s.depth) ∧
    (∀ (e : Expr) (s : Session) (m : Machine), Reaches ctx (.start e s) m →
      m.session.depth = s.depth + m.active) ∧
    (∀ (as : List Action) (s : Session), (performAll ctx as s).2.depth = s.depth) ∧
    ∀ (as bs : List Action) (s t : Session), s.depth = t.depth →
      (performAll ctx as s).2.env = (performAll ctx bs t).2.env →
      Reliable ctx.tracer ∨ ctx.roomLeft (performAll ctx as s).2 =
        ctx.roomLeft (performAll ctx bs t).2 →
      (∀ e, answer (eval ctx ctx.fuel e (performAll ctx as s).2) =
        answer (eval ctx ctx.fuel e (performAll ctx bs t).2)) ∧
      ∀ cs : List Action, (performAll ctx cs (performAll ctx as s).2).1 =
        (performAll ctx cs (performAll ctx bs t).2).1 ∧
        (performAll ctx cs (performAll ctx as s).2).2.env =
          (performAll ctx cs (performAll ctx bs t).2).2.env := by
  refine ⟨fun fuel e s => ((depth_steady ctx).eval fuel e s).symm,
    fun e s m hm => hm.depth_active.1, performAll_depth ctx, ?_⟩
  intro as bs s t hdepth henv hroom
  have hequivalent : (performAll ctx as s).2.Equivalent ctx (performAll ctx bs t).2 := by
    refine ⟨henv, ?_, roomLeft_eq_of_reliable ctx hroom⟩
    rw [performAll_depth, performAll_depth, hdepth]
  refine ⟨fun e => ?_, fun cs => ?_⟩
  · exact ((eval_equivalent ctx ctx.fuel e).answer_eq (fun _ _ _ h => h) hequivalent).1
  · obtain ⟨hanswers, hlast⟩ := performAll_equivalent ctx cs hequivalent
    exact ⟨hanswers, hlast.env⟩

/-- A sum, and a list that fails after it. -/
def innerSum : Expr :=
  .list ⟨1, 1⟩ [.atom ⟨.plus, "+", ⟨1, 2⟩⟩, .atom ⟨.numeric, "1", ⟨1, 4⟩⟩,
    .atom ⟨.numeric, "2", ⟨1, 6⟩⟩]

def failingSum : Expr :=
  .list ⟨1, 1⟩ [.atom ⟨.plus, "+", ⟨1, 2⟩⟩, innerSum, .list ⟨1, 11⟩ [.atom ⟨.word, "x", ⟨1, 12⟩⟩]]

/-- Failures of several kinds, one of them after a record was made. -/
def failures : List Action :=
  [.eval failingSum, .eval (.atom ⟨.word, "x", ⟨1, 1⟩⟩), .eval (.list ⟨1, 1⟩ [innerSum]),
    .evalAll [innerSum, .list ⟨1, 1⟩ [.atom ⟨.slash, "/", ⟨1, 2⟩⟩, innerSum,
      .atom ⟨.numeric, "0", ⟨1, 4⟩⟩]]]

theorem depth_is_neutral_failures :
    (performAll (.plain "run" "0x1") failures .start).1.map Except.isOk =
      [false, false, false, false] ∧
    Reliable (Context.plain "run" "0x1").tracer ∧
    (performAll (.plain "run" "0x1") failures .start).2.env = Session.start.env ∧
    (performAll (.plain "run" "0x1") failures .start).2.depth = 0 ∧
    (∀ cs, (performAll (.plain "run" "0x1") cs
      (performAll (.plain "run" "0x1") failures .start).2).1 =
      (performAll (.plain "run" "0x1") cs .start).1) ∧
    ∀ m, Reaches (.plain "run" "0x1") (.start failingSum .start) m → m.session.depth =
      m.active := by
  have hfails : (performAll (.plain "run" "0x1") failures .start).1.map Except.isOk =
      [false, false, false, false] := by
    decide +kernel
  have hreliable : Reliable (Context.plain "run" "0x1").tracer := fun t h => by cases h
  have henv : (performAll (.plain "run" "0x1") failures .start).2.env = Session.start.env := rfl
  obtain ⟨-, hmoments, hdepth, hsame⟩ := depth_is_neutral (.plain "run" "0x1")
  refine ⟨hfails, hreliable, henv, hdepth failures .start, fun cs => ?_, fun m hm => ?_⟩
  · exact ((hsame failures [] .start .start rfl henv (Or.inl hreliable)).2 cs).1
  · exact (hmoments _ _ m hm).trans (Nat.zero_add _)

/-- With a bounded sink the definitions and bindings do not settle what an evaluation gives: an
earlier one, though it failed and left none, may have taken the last room. -/
theorem result_depends_on_room :
    ¬∀ (ctx : Context) (as bs : List Action) (e : Expr),
      (performAll ctx as .start).2.env = (performAll ctx bs .start).2.env →
      answer (eval ctx ctx.fuel e (performAll ctx as .start).2) =
        answer (eval ctx ctx.fuel e (performAll ctx bs .start).2) := by
  intro h
  have hafter :
      (answer (eval oneRecord oneRecord.fuel innerSum
        (performAll oneRecord [.eval failingSum] .start).2)).isOk = false := by
    decide +kernel
  have hfresh :
      (answer (eval oneRecord oneRecord.fuel innerSum (performAll oneRecord [] .start).2)).isOk =
      true := by
    decide +kernel
  rw [h oneRecord [.eval failingSum] [] innerSum rfl, hfresh] at hafter
  cases hafter

end ListLang
