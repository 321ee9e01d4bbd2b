import ListLang.Proofs.Observation
import ListLang.Proofs.TraceLines

/-! Quotations stand for themselves. Every list among the values is a quotation as it was read,
however many calls ago that was. Printed, it is read as the same quotation again, and evaluating
that gives it back. -/

namespace ListLang

open Eval

/-- A list that is its own value. -/
def Expr.IsQuotation (e : Expr) : Prop :=
  ∃ p t args, e = .list p (.atom t :: args) ∧ operatorOf? t = none ∧ isQuote t.text = true

def Value.Quoted : Value → Prop
  | .list e => e.IsQuotation
  | _ => True

def Session.Quoted (s : Session) : Prop := ∀ b ∈ s.env.bindings, ∀ v ∈ b.value, v.Quoted

/-! What evaluation makes lists of. -/

theorem Session.Quoted.start : Session.start.Quoted := fun _ h => absurd h (Array.not_mem_empty _)

/-- Evaluation makes lists of nothing but quotations. -/
theorem quoted_kept {ctx : Context} (hctx : ctx.builtins = Builtin.defaults) :
    Kept ctx (fun _ => True) Value.Quoted Session.Quoted where
  literal {t l} _ _ := by cases l <;> trivial
  down h := h
  up h := h
  record hs _ _ := hs
  session hmade hs _ := by
    cases hmade with
    | function t args hf => exact bindings_of_bind hs _
    | @builtin t args b hb => cases b <;> exact hs
    | _ => exact hs
  parts _ _ _ _ _ := trivial
  conclude hmade hs _ vs hvs v hv := by
    cases hmade.yields hv with
    | nil => trivial
    | number n => cases n <;> trivial
    | quote t args hop hquote => exact ⟨_, t, args, rfl, hop, hquote⟩
    | definition t name param body => trivial
    | bound hlookup => exact lookup?_of_bindings (V := Value.Quoted) trivial hs hlookup
    | last hmem => exact hvs v hmem
    | builtin t args hb hv =>
      rw [builtin?_of_defaults hctx hb] at hv
      obtain ⟨a, rfl⟩ := format_text rfl hv
      trivial

/-! Quotations that are printed, read and evaluated. -/

theorem Expr.Alike.isQuotation {d e : Expr} (h : d.Alike e) (hd : d.IsQuotation) :
    e.IsQuotation := by
  obtain ⟨p, t, args, rfl, hop, hquote⟩ := hd
  match e, h with
  | .list q (.atom u :: args'), ⟨⟨hkind, htext⟩, _⟩ =>
    refine ⟨q, u, args', rfl, ?_, htext ▸ hquote⟩
    unfold operatorOf? at hop ⊢
    rw [← hkind, ← htext]
    exact hop

section Evaluation

variable {ctx : Context} {fuel : Nat} {s : Session} {e : Expr}

theorem eval_quotation (h : e.IsQuotation) (hb : ctx.barrier? (fuel + 1) s.depth = none) :
    eval ctx (fuel + 1) e s = if ctx.canRecord s
      then .ok (.list e) (s.recording ctx (.of e (.list e)))
      else .error (.error .sinkFull) s := by
  obtain ⟨p, t, args, rfl, hop, hquote⟩ := h
  have hends := eval_list_ends hb p (.atom t :: args)
  have hplan : ctx.plan s.down p (.atom t :: args) =
      .settled s.down (.ok (.list (.list p (.atom t :: args)))) := by
    simp only [Context.plan, hop, if_pos hquote]
  rw [hplan] at hends
  have hparts : evalEach (eval ctx fuel) [] s.down = .ok [] s.down := rfl
  exact hends.eq_of_value hparts rfl

theorem barrier?_start (hfuel : 0 < ctx.fuel) :
    ctx.barrier? ctx.fuel Session.start.depth = none := by
  have hdeep : ¬(ctx.limit ≠ 0 && ctx.limit ≤ 0) = true := by simp
  have hlimit : ¬(ctx.limit ≠ 0 && ctx.limit ≤ Session.start.depth) = true := hdeep
  rw [Context.barrier?, if_neg hlimit, if_neg hfuel.ne']

/-- A run of a quotation and nothing else, from the start. -/
theorem run_quotation {text : List Char} (hread : read text = .ok [e]) (h : e.IsQuotation)
    (hfuel : 0 < ctx.fuel) (hroom : ctx.canRecord .start = true) :
    run ctx text = ⟨.ok [.list e], Session.start.recording ctx (.of e (.list e))⟩ := by
  have hb := barrier?_start hfuel
  obtain ⟨n, hn⟩ := fuel_of_barrier_none hb
  rw [hn] at hb
  have heval := eval_quotation h hb
  rw [← hn, if_pos hroom] at heval
  have hall : evalAll ctx [e] .start =
      .ok [.list e] (Session.start.recording ctx (.of e (.list e))) := by
    rw [evalAll, evalEach, bind_of_ok heval]
    rfl
  rw [run, runIn_of_read hread, hall]
  rfl

end Evaluation

/-- A list among the values of a run is a quotation of the text. -/
theorem run_list {ctx : Context} (hctx : ctx.builtins = Builtin.defaults) {text : List Char}
    {vs : List Value}
    (hrun : (run ctx text).result = .ok vs) {e : Expr} (he : .list e ∈ vs) : e.WellSpelled ∧
      e.IsQuotation := by
  cases hread : read text with
  | error fault =>
    rw [run, runIn_of_unread hread] at hrun
    cases hrun
  | ok es =>
    have hwell := Expr.allWellSpelled_iff.1 (read_wellSpelled hread)
    have hspelled := (spelled_kept (Context.spelled_of_defaults hctx)).evalAll hwell .start
    have hany : ∀ e ∈ es, True := fun _ _ => trivial
    have hquoted := (quoted_kept hctx).evalAll hany .start
    rw [run, runIn_of_read hread, result_ofResult] at hrun
    cases heval : evalAll ctx es .start with
    | error h t =>
      rw [heval] at hrun
      cases hrun
    | ok ws t =>
      rw [heval] at hrun hspelled hquoted
      cases hrun
      exact ⟨hspelled.1 _ he, hquoted.1 _ he⟩

theorem read_display_list {e : Expr} (he : e.WellSpelled) :
    ∃ e', read (Value.list e).display.toList = .ok [e'] ∧ e.Alike e' := by
  have hall : Expr.AllWellSpelled [e] := ⟨he, trivial⟩
  obtain ⟨es, hread, halike⟩ := read_encodeAll hall
  match es, halike with
  | [e'], ⟨h, _⟩ => exact ⟨e', hread, h⟩

/-- Every list among the values of a source is read, from the text that shows it, as the same list
and nothing else. Run on its own, that text has the list as its only value; it defines and binds
nothing, and there is one record of it in the trace. -/
theorem quotations_are_fixed_points (ctx : Context) (hbuiltins : ctx.builtins = Builtin.defaults)
    (source : List UInt8)
    (vs : List Value) (hrun : (run ctx (Text.decode source)).result = .ok vs) (e : Expr)
      (he : .list e ∈ vs) :
    ∃ e', readBytes (Text.bytes (Value.list e).display) = .ok [e'] ∧ e.same e' = true ∧ e.Alike e' ∧
      (Value.list e').display = (Value.list e).display ∧
      ∀ fresh : Context, 0 < fresh.fuel → fresh.canRecord .start = true →
        ∃ t, run fresh (Text.decode (Text.bytes (Value.list e).display)) = ⟨.ok [.list e'], t⟩ ∧
          t.env = .empty ∧
          (fresh.tracer.isSome = true → t.trace = #[.of e' (.list e')]) := by
  obtain ⟨hwell, hquotation⟩ := run_list hbuiltins hrun he
  obtain ⟨e', hread, halike⟩ := read_display_list hwell
  refine ⟨e', ?_, halike.same_eq, halike, halike.encode_eq.symm, fun fresh hfuel hroom => ?_⟩
  · rw [readBytes_bytes]
    exact hread
  · rw [Text.decode_bytes, run_quotation hread (halike.isQuotation hquotation) hfuel hroom]
    refine ⟨_, rfl, rfl, fun htracer => ?_⟩
    simp [Session.recording, htracer, Session.start]

/-- A quotation with a string over two lines, two calls away from where it stands. -/
def distantQuotation : List UInt8 :=
  Text.bytes "(def f x (+ 1 2) (' (a- -1. \")\n\")  ()))\n(def g y (f))\n7 (g)"

theorem quotations_are_fixed_points_distant :
    ∃ vs e, (run lined (Text.decode distantQuotation)).result = .ok vs ∧ .list e ∈ vs ∧
      (Value.list e).display = "(' (a- -1. \")\") ())" ∧
      ∃ e', readBytes (Text.bytes (Value.list e).display) = .ok [e'] ∧ e.Alike e' ∧
        ∃ t, run { lined with limit := 1 } (Text.decode (Text.bytes (Value.list e).display)) =
          ⟨.ok [.list e'], t⟩ ∧
          t.env = .empty ∧ t.trace = #[.of e' (.list e')] := by
  have hshown : (run lined (Text.decode distantQuotation)).result.toOption.map
    (·.map fun v => (v.type, v.display)) =
      some [(.function, "<function f x>"), (.function, "<function g y>"), (.int, "7"),
        (.list, "(' (a- -1. \")\") ())")] := by
    decide +kernel
  cases hrun : (run lined (Text.decode distantQuotation)).result with
  | error fault =>
    rw [hrun] at hshown
    cases hshown
  | ok vs =>
    rw [hrun] at hshown
    have hmap : vs.map (fun v => (v.type, v.display)) = _ := Option.some.inj hshown
    have hmem : (ValueType.list, "(' (a- -1. \")\") ())") ∈ vs.map fun v => (v.type,
      v.display) := by simp [hmap]
    obtain ⟨v, hv, hpair⟩ := List.mem_map.1 hmem
    cases v with
    | list e =>
      obtain ⟨e', hread, -, halike, -, hfresh⟩ :=
        quotations_are_fixed_points lined rfl distantQuotation vs hrun e hv
      obtain ⟨t, ht, henv, htrace⟩ := hfresh { lined with limit := 1 } (by decide) rfl
      exact ⟨vs, e, rfl, hv, congrArg Prod.snd hpair, e', hread, halike, t, ht, henv, htrace rfl⟩
    | _ => cases congrArg Prod.fst hpair

end ListLang
