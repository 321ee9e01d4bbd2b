import ListLang.Proofs.Simulation

/-! The depth limit. A run is compared with one that may go deeper: up to the point where the first
one meets its limit they do the same, so an end that is not the limit is the end of both, and an end
at the limit leaves a beginning of what the second run leaves. An evaluation without a limit counts
as one whose limit is high enough. -/

namespace ListLang

open Eval

/-! How far an evaluation can go. -/

namespace Context

/-- How many more levels can be entered at this depth. -/
def room (ctx : Context) (fuel depth : Nat) : Nat :=
  if ctx.limit = 0 then fuel else ctx.limit - depth

/-- What ends an evaluation that has no room left. -/
def stop (ctx : Context) : Halt := if ctx.limit = 0 then .exhausted else .error (.tooDeep ctx.limit)

theorem barrier?_eq {ctx : Context} {fuel depth : Nat} (h : ctx.limit ≤ fuel + depth) :
    ctx.barrier? fuel depth = if ctx.room fuel depth = 0 then some ctx.stop else none := by
  unfold barrier? room stop
  by_cases hlimit : ctx.limit = 0
  · simp [hlimit]
  · by_cases hdeep : ctx.limit ≤ depth
    · have hroom : ctx.limit - depth = 0 := by omega
      simp [hlimit, hdeep, hroom]
    · have hroom : ctx.limit - depth ≠ 0 := by omega
      have hfuel : fuel ≠ 0 := by omega
      simp [hlimit, hdeep, hroom, hfuel]

theorem room_succ (ctx : Context) (fuel depth : Nat) :
    ctx.room fuel (depth + 1) = ctx.room (fuel + 1) depth - 1 := by
  unfold room
  split <;> omega

theorem limit_le_fuel (ctx : Context) : ctx.limit ≤ ctx.fuel := by
  unfold fuel
  split <;> omega

/-- The same context with another limit, and followed as deep as `patience` when there is none. -/
def upTo (ctx : Context) (limit patience : Nat) : Context :=
  { ctx with limit := limit, patience := patience }

end Context

/-! Side by side with a run that may go deeper. -/

/-- One session for both runs, at depth `k`. The first run may stop where its room ends. -/
def limitLink (stop : Halt) (k : Nat) : Link where
  expr := Eq
  site := Eq
  session s t := s = t ∧ s.depth = k
  cut h s t := h = stop ∧ s.Grows t

theorem limitLink_nests (stop : Halt) (k : Nat) :
    (limitLink stop k).Nests (limitLink stop (k + 1)) where
  down := by
    rintro s _ ⟨rfl, rfl⟩
    exact ⟨rfl, rfl⟩
  up := by
    rintro s _ ⟨rfl, hdepth⟩
    exact ⟨rfl, congrArg (· - 1) hdepth⟩
  cut := fun ⟨hstop, hgrows⟩ => ⟨hstop, hgrows.functions, hgrows.bindings, hgrows.trace,
    hgrows.journal⟩

section UpTo

variable (ctx : Context) {l p l' p' : Nat}

theorem limitLink_record (stop : Halt) (k : Nat) (e : Expr) (v : Value) :
    (limitLink stop k).Follows Eq (record (ctx.upTo l p) e v) (record (ctx.upTo l' p') e v) := by
  rintro s _ ⟨rfl, hdepth⟩
  unfold record Context.upTo
  simp only
  cases ctx.tracer with
  | none => exact ⟨rfl, rfl, hdepth⟩
  | some tracer =>
    simp only
    split
    · exact ⟨rfl, rfl, hdepth⟩
    · exact Or.inr ⟨s, rfl, rfl, hdepth⟩

theorem limitLink_sound (stop : Halt) (k : Nat) :
    (limitLink stop k).Sound (ctx.upTo l p) (ctx.upTo l' p') := by
  refine Link.sound_same rfl (fun _ => rfl) (fun h hgrows => ⟨h.1, h.2.trans hgrows⟩)
    (fun h => congrArg Session.depth h.1) (fun h => congrArg Session.env h.1) ?_ ?_
      (limitLink_record ctx stop k)
  · rintro f s _ ⟨rfl, hdepth⟩
    rw [addFunction_run, addFunction_run]
    exact ⟨rfl, rfl, hdepth⟩
  · rintro f s _ ⟨rfl, hdepth⟩
    rw [addCall_run, addCall_run]
    exact ⟨rfl, rfl, hdepth⟩

/-- With at least as much room the second run follows the first one to its end, or to where the room
of the first one ends. -/
theorem eval_upTo : ∀ {m n k : Nat}, l ≤ m + k → l' ≤ n + k →
    (ctx.upTo l p).room m k ≤ (ctx.upTo l' p').room n k →
      (limitLink (ctx.upTo l p).stop k).Evaluates (eval (ctx.upTo l p) m)
        (eval (ctx.upTo l' p') n) := by
  -- on the fuel of the first run; one level in, both rooms are less by one and both sums are the
  -- same
  intro m
  induction m using Nat.strong_induction_on with
  | _ m ih =>
    intro n k hm hn hroom
    have hL : ∀ k, (limitLink (ctx.upTo l p).stop k).Sound (ctx.upTo l p) (ctx.upTo l' p') :=
      limitLink_sound ctx _
    refine ⟨fun {e f} hef => ?_, (grows_steady _).eval n⟩
    obtain rfl : e = f := hef
    cases e with
    | atom a =>
      rw [eval_atom, eval_atom]
      exact (hL k).evalAtom rfl
    | list pos es =>
      rintro s _ ⟨rfl, rfl⟩
      have hbarrier := (ctx.upTo l p).barrier?_eq hm
      have hbarrier' := (ctx.upTo l' p').barrier?_eq hn
      by_cases hzero : (ctx.upTo l p).room m s.depth = 0
      · rw [if_pos hzero] at hbarrier
        rw [eval_list_barrier hbarrier]
        exact Or.inl ⟨rfl, (grows_steady _).eval n _ s⟩
      · rw [if_neg hzero] at hbarrier
        rw [if_neg (by omega)] at hbarrier'
        obtain ⟨m, rfl⟩ := fuel_of_barrier_none hbarrier
        obtain ⟨n, rfl⟩ := fuel_of_barrier_none hbarrier'
        rw [eval_list_inside hbarrier, eval_list_inside hbarrier']
        have hroom' : (ctx.upTo l p).room m (s.depth + 1) ≤
            (ctx.upTo l' p').room n (s.depth + 1) := by
          rw [Context.room_succ, Context.room_succ]
          omega
        have hinner := ih m (Nat.lt_succ_self m) (by omega) (by omega) hroom'
        exact (limitLink_nests _ s.depth).inside ((hL _).recorded hinner rfl) s s ⟨rfl, rfl⟩

theorem evalAll_upTo (es : List Expr) (s : Session)
    (hroom : (ctx.upTo l p).room (ctx.upTo l p).fuel s.depth ≤
      (ctx.upTo l' p').room (ctx.upTo l' p').fuel s.depth) :
    evalAll (ctx.upTo l' p') es s = evalAll (ctx.upTo l p) es s ∨
      (answer (evalAll (ctx.upTo l p) es s) = .error (ctx.upTo l p).stop ∧
        (final (evalAll (ctx.upTo l p) es s)).Grows (final (evalAll (ctx.upTo l' p') es s))) := by
  have hfuel : l ≤ (ctx.upTo l p).fuel := (ctx.upTo l p).limit_le_fuel
  have hfuel' : l' ≤ (ctx.upTo l' p').fuel := (ctx.upTo l' p').limit_le_fuel
  have hev := eval_upTo ctx (by omega) (by omega) hroom
  have hes : List.Forall₂ Eq es es := List.forall₂_same.2 fun _ _ => rfl
  have hL : (limitLink (ctx.upTo l p).stop s.depth).Sound (ctx.upTo l p) (ctx.upTo l' p') :=
    limitLink_sound ctx _ s.depth
  have hends := hL.evalEach hev hes s s ⟨rfl, rfl⟩
  unfold evalAll
  rcases hends.cases with ⟨vs, ws, s', t', hs, ht, hvs, rfl, -⟩ | ⟨e, s', t', hs, ht, rfl, -⟩ |
    ⟨e, s', hs, rfl, hgrows⟩
  · rw [hs, ht, forall₂_valueRel_eq hvs]
    exact Or.inl rfl
  · rw [hs, ht]
    exact Or.inl rfl
  · rw [hs]
    exact Or.inr ⟨rfl, hgrows⟩

end UpTo

/-! Ends of evaluations. -/

section Ends

variable {α : Type}

def EndsTooDeep (r : EStateM.Result Halt Session α) : Prop :=
  ∃ limit, answer r = .error (.error (.tooDeep limit))

/-- A run and one that may go deeper: the same, unless the first one ended at its limit; and then
all that it left stands at the beginning of what the other one leaves. -/
def GoesOn (r q : EStateM.Result Halt Session α) : Prop :=
  (¬EndsTooDeep r → q = r) ∧ (EndsTooDeep r → (final r).Grows (final q))

/-- Without a limit the evaluation comes to an end, and this is it. -/
def EndsUnlimited (ctx : Context) (es : List Expr) (s : Session)
    (r : EStateM.Result Halt Session (List Value)) : Prop :=
  ∃ patience, evalAll (ctx.upTo 0 patience) es s = r ∧ answer r ≠ .error .exhausted

end Ends

section Limits

variable {ctx : Context} {es : List Expr} {s : Session} {l p l' p' : Nat}

theorem room_of_limit (hl : 0 < l) (depth : Nat) :
    (ctx.upTo l p).room (ctx.upTo l p).fuel depth = l - depth :=
      if_neg (by simp [Context.upTo]; omega)

theorem room_of_unlimited (depth : Nat) : (ctx.upTo 0 p).room (ctx.upTo 0 p).fuel depth = p := rfl

theorem goesOn_of_room (hl : 0 < l)
    (hroom : l - s.depth ≤ (ctx.upTo l' p').room (ctx.upTo l' p').fuel s.depth) :
    GoesOn (evalAll (ctx.upTo l p) es s) (evalAll (ctx.upTo l' p') es s) := by
  have hstop : (ctx.upTo l p).stop = .error (.tooDeep l) := if_neg (by simp [Context.upTo]; omega)
  rcases evalAll_upTo ctx es s ((room_of_limit hl s.depth).trans_le hroom) with hsame |
    ⟨hanswer, hgrows⟩
  · exact ⟨fun _ => hsame, fun _ => by rw [hsame]; exact .refl _⟩
  · exact ⟨fun h => absurd ⟨l, hstop ▸ hanswer⟩ h, fun _ => hgrows⟩

/-- An evaluation that ended without a limit goes the same way wherever there is as much room. -/
theorem evalAll_of_unlimited (hended : answer (evalAll (ctx.upTo 0 p) es s) ≠ .error .exhausted)
    (hroom : p ≤ (ctx.upTo l' p').room (ctx.upTo l' p').fuel s.depth) :
    evalAll (ctx.upTo l' p') es s = evalAll (ctx.upTo 0 p) es s := by
  rcases evalAll_upTo ctx es s ((room_of_unlimited s.depth).trans_le hroom) with hsame |
    ⟨hanswer, -⟩
  · exact hsame
  · exact absurd hanswer hended

end Limits

/-- A higher limit, or none, changes no end but the one at the limit, and takes nothing back. An
evaluation that ends without a limit ends the same way under every limit that is high enough. -/
theorem depth_limit_monotone (ctx : Context) (es : List Expr) (s : Session) :
    (∀ d d', 0 < d → d ≤ d' →
      GoesOn (evalAll { ctx with limit := d } es s) (evalAll { ctx with limit := d' } es s)) ∧
    (∀ d r, 0 < d → EndsUnlimited ctx es s r → GoesOn (evalAll { ctx with limit := d } es s) r) ∧
    (∀ r, EndsUnlimited ctx es s r → ∃ d₀, 0 < d₀ ∧ ∀ d, d₀ ≤ d →
      evalAll { ctx with limit := d } es s = r) := by
  have hlimit : ∀ d, ({ ctx with limit := d } : Context) = ctx.upTo d ctx.patience := fun _ => rfl
  refine ⟨?_, ?_, ?_⟩
  · intro d d' hd hdd'
    rw [hlimit, hlimit]
    refine goesOn_of_room hd ?_
    rw [room_of_limit (by omega)]
    omega
  · rintro d r hd ⟨p, rfl, hended⟩
    -- the patience of the given end may be less than `d`, so both are compared with more of it
    have hsame : evalAll (ctx.upTo 0 (p + d)) es s = evalAll (ctx.upTo 0 p) es s :=
      evalAll_of_unlimited hended (by rw [room_of_unlimited]; omega)
    rw [hlimit, ← hsame]
    refine goesOn_of_room hd ?_
    rw [room_of_unlimited]
    omega
  · rintro r ⟨p, rfl, hended⟩
    refine ⟨p + s.depth + 1, by omega, fun d hd => ?_⟩
    rw [hlimit]
    refine evalAll_of_unlimited hended ?_
    rw [room_of_limit (by omega)]
    omega

/-- A definition, and a sum within a sum. -/
def nestedSum : List Expr :=
  [.list ⟨1, 1⟩ [.atom ⟨.word, "def", ⟨1, 2⟩⟩, .atom ⟨.word, "f", ⟨1, 6⟩⟩,
    .atom ⟨.word, "x", ⟨1, 8⟩⟩],
    .list ⟨1, 11⟩ [.atom ⟨.plus, "+", ⟨1, 12⟩⟩, .atom ⟨.numeric, "1", ⟨1, 14⟩⟩,
      .list ⟨1, 16⟩ [.atom ⟨.plus, "+", ⟨1, 17⟩⟩, .atom ⟨.numeric, "1", ⟨1, 19⟩⟩,
        .atom ⟨.numeric, "1", ⟨1, 21⟩⟩]]]

def traced : Context :=
  { Context.plain "run" "0x1" with tracer := some ⟨.text, none⟩, journaling := true }

def nestedSumUpTo (limit : Nat) : EStateM.Result Halt Session (List Value) :=
  evalAll { traced with limit := limit } nestedSum .start

def nestedSumUnlimited : EStateM.Result Halt Session (List Value) :=
  evalAll (traced.upTo 0 2) nestedSum .start

theorem nestedSumUpTo_one : EndsTooDeep (nestedSumUpTo 1) := ⟨1, rfl⟩

theorem nestedSumUpTo_two : ¬EndsTooDeep (nestedSumUpTo 2) := by
  have hok : (answer (nestedSumUpTo 2)).isOk = true := by decide +kernel
  rintro ⟨limit, h⟩
  rw [h] at hok
  cases hok

theorem nestedSumUnlimited_ends : EndsUnlimited traced nestedSum .start nestedSumUnlimited := by
  have hok : (answer nestedSumUnlimited).isOk = true := by decide +kernel
  have hended : answer nestedSumUnlimited ≠ .error .exhausted := by
    intro h
    rw [h] at hok
    cases hok
  exact ⟨2, rfl, hended⟩

theorem depth_limit_monotone_nestedSum :
    EndsTooDeep (nestedSumUpTo 1) ∧ (final (nestedSumUpTo 1)).Grows (final (nestedSumUpTo 2)) ∧
    ¬EndsTooDeep (nestedSumUpTo 2) ∧ nestedSumUpTo 1000 = nestedSumUpTo 2 ∧
    EndsUnlimited traced nestedSum .start nestedSumUnlimited ∧ nestedSumUnlimited =
      nestedSumUpTo 2 ∧
    ∃ d₀, 0 < d₀ ∧ ∀ d, d₀ ≤ d → nestedSumUpTo d = nestedSumUnlimited := by
  obtain ⟨hlimits, hunlimited, hconverse⟩ := depth_limit_monotone traced nestedSum .start
  have hgrows := (hlimits 1 2 (by decide) (by decide)).2 nestedSumUpTo_one
  have hsame := (hlimits 2 1000 (by decide) (by decide)).1 nestedSumUpTo_two
  have hends := (hunlimited 2 _ (by decide) nestedSumUnlimited_ends).1 nestedSumUpTo_two
  exact ⟨nestedSumUpTo_one, hgrows, nestedSumUpTo_two, hsame, nestedSumUnlimited_ends, hends,
    hconverse _ nestedSumUnlimited_ends⟩

end ListLang
