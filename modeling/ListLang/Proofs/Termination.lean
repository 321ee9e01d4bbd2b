import ListLang.Proofs.Machine

/-! Under a limit every evaluation comes to an end. The depth of a machine counts the lists that are
being evaluated, and the limit bounds it at every step, so the evaluator is never followed further
than its fuel goes and has an answer. -/

namespace ListLang

open Machine Relation

namespace Machine

variable {ctx : Context} {m last : Machine}

theorem not_steps_of_result? {r : EStateM.Result Halt Session Value} (h : last.result? = some r)
    (n : Machine) :
    ¬Steps ctx last n := by
  obtain ⟨focus, stack, s⟩ := last
  intro hstep
  cases stack with
  | nil =>
    cases focus with
    | expr e => cases h
    | value v => cases hstep
    | error e => cases hstep
  | cons first k => cases focus <;> cases h

/-- A machine has only one way to go, so one that can come to an end has no way to run on for
ever. -/
theorem acc_of_reaches_end (h : Reaches ctx m last) (hlast : ∀ n, ¬Steps ctx last n) :
    Acc (fun n m => Steps ctx m n) m := by
  induction h using ReflTransGen.head_induction_on with
  | refl => exact ⟨_, fun n hstep => absurd hstep (hlast n)⟩
  | head hstep _ ih => exact ⟨_, fun n hn => hn.unique hstep ▸ ih⟩

theorem result?_ne_exhausted {t : Session} : last.result? ≠ some (.error .exhausted t) := by
  unfold result?
  split <;> simp

/-- A limit keeps the machine from the depth at which the evaluator gives up. -/
theorem reaches_answer (hlimit : 0 < ctx.limit) (e : Expr) (s : Session) :
    ∃ last, Reaches ctx (start e s) last ∧ last.result? = some (eval ctx ctx.fuel e s) := by
  have hyields := (carries_eval ctx ctx.fuel s.depth).yields e [] s rfl
  cases hr : eval ctx ctx.fuel e s with
  | ok v t =>
    rw [hr] at hyields
    exact ⟨_, hyields, rfl⟩
  | error h t =>
    rw [hr] at hyields
    cases h with
    | error err => exact ⟨_, hyields, rfl⟩
    | exhausted =>
      -- the fuel is the limit, so the machine would be above it
      obtain ⟨n, hn, hdeep⟩ := hyields
      obtain ⟨hdepth, hactive⟩ := hn.depth_active
      have hfuel : ctx.fuel = ctx.limit := if_neg (by omega)
      have := hactive (by omega)
      omega

end Machine

/-- Under a limit no evaluation is given up. -/
theorem eval_ne_exhausted {ctx : Context} (hlimit : 0 < ctx.limit) (e : Expr) (s : Session) :
    Eval.failure? (eval ctx ctx.fuel e s) ≠ some .exhausted := by
  obtain ⟨last, -, hresult⟩ := reaches_answer hlimit e s
  intro hfailure
  cases hr : eval ctx ctx.fuel e s with
  | ok v t =>
    rw [hr] at hfailure
    cases hfailure
  | error h t =>
    rw [hr] at hfailure hresult
    cases hfailure
    exact result?_ne_exhausted hresult

/-- Under a limit an evaluation comes to an end with a value or an error, from whatever session it
starts. At no moment are more lists being evaluated than the limit allows. -/
theorem bounded_evaluation_ends (ctx : Context) (hlimit : 0 < ctx.limit) (e : Expr) (s : Session) :
    ((∃ v t, eval ctx ctx.fuel e s = .ok v t) ∨ ∃ err t, eval ctx ctx.fuel e s =
      .error (.error err) t) ∧
    (∃ last, Reaches ctx (start e s) last ∧ last.result? = some (eval ctx ctx.fuel e s)) ∧
    Acc (fun n m => Steps ctx m n) (start e s) ∧
    ∀ m, Reaches ctx (start e s) m → m.session.depth = s.depth + m.active ∧ m.active ≤ ctx.limit ∧
      (s.depth ≤ ctx.limit → m.session.depth ≤ ctx.limit) := by
  obtain ⟨last, hlast, hresult⟩ := reaches_answer hlimit e s
  refine ⟨?_, ⟨last, hlast, hresult⟩, acc_of_reaches_end hlast (not_steps_of_result? hresult),
    fun m hm => ?_⟩
  · cases hr : eval ctx ctx.fuel e s with
    | ok v t => exact Or.inl ⟨v, t, rfl⟩
    | error h t =>
      cases h with
      | error err => exact Or.inr ⟨err, t, rfl⟩
      | exhausted => exact absurd (hr ▸ hresult) result?_ne_exhausted
  · obtain ⟨hdepth, hactive⟩ := hm.depth_active
    have := hactive (by omega)
    exact ⟨hdepth, by omega, by omega⟩

/-- Two functions that call each other, the second one after a definition of a third. -/
def pingPong : Environment :=
  (Environment.empty.define ⟨"ping", none, [.list ⟨1, 1⟩ [.atom ⟨.word, "pong", ⟨1, 2⟩⟩]]⟩).define
    ⟨"pong", none,
      [.list ⟨2, 1⟩ [.atom ⟨.word, "def", ⟨2, 2⟩⟩, .atom ⟨.word, "f", ⟨2, 6⟩⟩,
        .atom ⟨.word, "x", ⟨2, 8⟩⟩],
        .list ⟨2, 11⟩ [.atom ⟨.word, "ping", ⟨2, 12⟩⟩]]⟩

def callPing : Expr := .list ⟨3, 1⟩ [.atom ⟨.word, "ping", ⟨3, 2⟩⟩]

def upToFive : Context := { Context.plain "run" "0x1" with limit := 5 }

def pingPongSession : Session := { Session.start with env := pingPong, depth := 2 }

theorem bounded_evaluation_ends_pingPong :
    0 < upToFive.limit ∧
    Eval.failure? (eval upToFive upToFive.fuel callPing pingPongSession) =
      some (.error (.tooDeep 5)) ∧
    (∃ last, Reaches upToFive (start callPing pingPongSession) last ∧
      last.result? = some (eval upToFive upToFive.fuel callPing pingPongSession)) ∧
    Acc (fun n m => Steps upToFive m n) (start callPing pingPongSession) ∧
    ∀ m, Reaches upToFive (start callPing pingPongSession) m → m.session.depth ≤ 5 := by
  have hlimit : 0 < upToFive.limit := by decide
  have hfailure :
      Eval.failure? (eval upToFive upToFive.fuel callPing pingPongSession) =
        some (.error (.tooDeep 5)) := by
    decide +kernel
  obtain ⟨-, hend, hacc, hmoments⟩ :=
    bounded_evaluation_ends upToFive hlimit callPing pingPongSession
  exact ⟨hlimit, hfailure, hend, hacc, fun m hm => (hmoments m hm).2.2 (by decide)⟩

end ListLang
