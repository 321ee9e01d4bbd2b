import ListLang.Proofs.Plan
import Mathlib.Data.List.Infix

/-! Filling templates. A template is cut at its placeholders, from the left. The texts of the
arguments go between the pieces in order; placeholders without an argument stay, and arguments
without a placeholder follow at the end, each after a space. -/

namespace ListLang

open Eval

def placeholder : List Char := ['\x7b', '\x7d']

/-- The pieces of a text between its placeholders. No placeholder begins before the first one that
is cut out, and the search goes on behind it. -/
inductive CutAt : List Char → List (List Char) → Prop where
  | whole {text : List Char} : ¬placeholder <:+: text → CutAt text [text]
  | first {before after : List Char} {pieces : List (List Char)} :
      (∀ b a, before ++ placeholder ++ after = b ++ placeholder ++ a → before.length ≤ b.length) →
      CutAt after pieces → CutAt (before ++ placeholder ++ after) (before :: pieces)

def filled (pieces args : List (List Char)) : List Char :=
  pieces.headD [] ++ (List.zipWith (· ++ ·) args pieces.tail).flatten ++
    (pieces.tail.drop args.length).flatMap (placeholder ++ ·) ++
      (args.drop pieces.tail.length).flatMap (' ' :: ·)

/-! The search for a placeholder. -/

section Search

open Builtin

variable {text before after : List Char} {pieces args : List (List Char)}

theorem splitPlaceholder?_eq_some (h : splitPlaceholder? text = some (before, after)) :
    text = before ++ placeholder ++ after ∧
      ∀ b a, text = b ++ placeholder ++ a → before.length ≤ b.length := by
  fun_induction splitPlaceholder? text generalizing before with
  | case1 => cases h
  | case2 rest =>
    cases h
    exact ⟨rfl, fun _ _ _ => Nat.zero_le _⟩
  | case3 c rest hne ih =>
    obtain ⟨⟨b', a'⟩, hsplit, heq⟩ := Option.map_eq_some_iff.1 h
    cases heq
    obtain ⟨rfl, hfirst⟩ := ih hsplit
    refine ⟨rfl, fun b a hba => ?_⟩
    cases b with
    | nil =>
      obtain ⟨rfl, hrest⟩ := List.cons.inj hba
      exact absurd hrest (hne a rfl)
    | cons d b => exact Nat.succ_le_succ (hfirst b a (List.cons.inj hba).2)

theorem splitPlaceholder?_eq_none (h : splitPlaceholder? text = none) : ¬placeholder <:+: text := by
  fun_induction splitPlaceholder? text with
  | case1 => simp [placeholder]
  | case2 rest => cases h
  | case3 c rest hne ih =>
    rw [List.infix_cons_iff, not_or]
    refine ⟨?_, ih (Option.map_eq_none_iff.1 h)⟩
    rintro ⟨a, ha⟩
    obtain ⟨rfl, hrest⟩ := List.cons.inj ha
    exact hne a rfl hrest.symm

theorem splitPlaceholder?_of_first
    (hfirst : ∀ b a, before ++ placeholder ++ after = b ++ placeholder ++ a →
      before.length ≤ b.length) :
    splitPlaceholder? (before ++ placeholder ++ after) = some (before, after) := by
  cases hsplit : splitPlaceholder? (before ++ placeholder ++ after) with
  | none => exact absurd ⟨before, after, rfl⟩ (splitPlaceholder?_eq_none hsplit)
  | some found =>
    obtain ⟨b, a⟩ := found
    obtain ⟨htext, hleast⟩ := splitPlaceholder?_eq_some hsplit
    have hlength : before.length = b.length :=
      le_antisymm (hfirst b a htext) (hleast before after rfl)
    rw [List.append_assoc, List.append_assoc] at htext
    obtain ⟨rfl, hrest⟩ := List.append_inj htext hlength
    rw [List.append_cancel_left hrest]

theorem splitPlaceholder?_of_whole (h : ¬placeholder <:+: text) :
    splitPlaceholder? text = none := by
  cases hsplit : splitPlaceholder? text with
  | none => rfl
  | some found => exact absurd ⟨found.1, found.2, (splitPlaceholder?_eq_some hsplit).1.symm⟩ h

theorem CutAt.of_split (hafter : CutAt after pieces)
    (h : splitPlaceholder? text = some (before, after)) :
    CutAt text (before :: pieces) := by
  obtain ⟨rfl, hfirst⟩ := splitPlaceholder?_eq_some h
  exact .first hfirst hafter

theorem exists_cutAt (text : List Char) : ∃ pieces, CutAt text pieces := by
  -- on the length: what is behind a placeholder is shorter
  induction hlength : text.length using Nat.strong_induction_on generalizing text with
  | _ length ih =>
    cases hsplit : splitPlaceholder? text with
    | none => exact ⟨[text], .whole (splitPlaceholder?_eq_none hsplit)⟩
    | some found =>
      obtain ⟨before, after⟩ := found
      have hshorter : after.length < length := by
        rw [← hlength, (splitPlaceholder?_eq_some hsplit).1]
        simp [placeholder]
        omega
      obtain ⟨pieces, hpieces⟩ := ih after.length hshorter after rfl
      exact ⟨before :: pieces, hpieces.of_split hsplit⟩

theorem CutAt.unique {pieces' : List (List Char)} (h : CutAt text pieces)
    (h' : CutAt text pieces') : pieces = pieces' := by
  induction h generalizing pieces' with
  | whole hnone =>
    cases h' with
    | whole => rfl
    | first _ _ => exact absurd ⟨_, _, rfl⟩ hnone
  | @first before after pieces hfirst _ ih =>
    generalize htext : before ++ placeholder ++ after = text at h'
    cases h' with
    | whole hnone => exact absurd ⟨before, after, htext⟩ hnone
    | @first b a pieces' hfirst' hcut =>
      have hsplit := splitPlaceholder?_of_first hfirst
      rw [htext, splitPlaceholder?_of_first hfirst'] at hsplit
      cases hsplit
      rw [ih hcut]

end Search

/-! Filling. -/

section Fill

open Builtin

variable {text : List Char} {pieces : List (List Char)}

theorem CutAt.ne_nil (h : CutAt text pieces) : ∃ piece rest, pieces = piece :: rest := by
  cases h with
  | whole _ => exact ⟨_, _, rfl⟩
  | first _ _ => exact ⟨_, _, rfl⟩

theorem fill_eq_filled (h : CutAt text pieces) (args : List (List Char)) :
    fill text args = filled pieces args := by
  induction h generalizing args with
  | whole hnone =>
    cases args with
    | nil => simp [fill, filled]
    | cons a args => simp [fill, filled, splitPlaceholder?_of_whole hnone]
  | @first before after pieces hfirst hcut ih =>
    obtain ⟨piece, rest, rfl⟩ := hcut.ne_nil
    cases args with
    | nil =>
      have hrest := ih []
      simp only [fill] at hrest
      simp [fill, filled, hrest]
    | cons a args =>
      have hrest := ih args
      rw [fill, splitPlaceholder?_of_first hfirst]
      simp only
      rw [hrest]
      simp [filled]

/-- Gaps with the texts between them: the first gap, the first text, the second gap, and so on. -/
def weave : List (List Char) → List (List Char) → List Char
  | gap :: gaps, arg :: args => gap ++ arg ++ weave gaps args
  | gaps, _ => gaps.flatten

/-- The gaps do not depend on what the texts are, only on how many there are. So no text is looked
into, and each of them appears once, in its place. -/
theorem filled_eq_weave (n : Nat) (piece : List Char) (rest : List (List Char)) :
    ∃ gaps : List (List Char), gaps.length = n + 1 ∧
      ∀ args, args.length = n → filled (piece :: rest) args = weave gaps args := by
  induction n generalizing piece rest with
  | zero =>
    refine ⟨[filled (piece :: rest) []], rfl, fun args hargs => ?_⟩
    rw [List.length_eq_zero_iff.1 hargs]
    simp [weave]
  | succ n ih =>
    cases rest with
    | nil =>
      obtain ⟨gaps, hlength, hgaps⟩ := ih [] []
      refine ⟨(piece ++ [' ']) :: gaps, by simp [hlength], fun args hargs => ?_⟩
      obtain ⟨arg, args, rfl⟩ := List.exists_cons_of_length_eq_add_one hargs
      rw [weave, ← hgaps args (by simpa using hargs)]
      simp [filled]
    | cons next rest =>
      obtain ⟨gaps, hlength, hgaps⟩ := ih next rest
      refine ⟨piece :: gaps, by simp [hlength], fun args hargs => ?_⟩
      obtain ⟨arg, args, rfl⟩ := List.exists_cons_of_length_eq_add_one hargs
      rw [weave, ← hgaps args (by simpa using hargs)]
      simp [filled]

end Fill

/-! Calls. -/

/-- Expressions evaluated one after the other, each of them once, with their values. -/
inductive InTurn (ctx : Context) (fuel : Nat) :
    Session → List Expr → List Value → Session → Prop where
  | nil {s : Session} : InTurn ctx fuel s [] [] s
  | cons {s t u : Session} {e : Expr} {es : List Expr} {v : Value} {vs : List Value} :
      eval ctx fuel e s = .ok v t →
      InTurn ctx fuel t es vs u → InTurn ctx fuel s (e :: es) (v :: vs) u

/-- A call of `format` with the given head, in a session that has nothing else of that name. -/
structure CallsFormat (ctx : Context) (s : Session) (t : Token) : Prop where
  head : t.text = "format"
  builtin : ctx.builtin? "format" = some Builtin.format
  unbound : s.env.lookup? "format" = none
  undefined : s.env.function? "format" = none

/-- The rules of a call of `format` that was entered: `r` is what becomes of it. -/
structure FormatRules (ctx : Context) (fuel : Nat) (p : Position) (t : Token) (args : List Expr)
    (s : Session) (r : EStateM.Result Halt Session Value) : Prop where
  argument : ∀ {done e rest vs u h w}, args = done ++ e :: rest → InTurn ctx fuel s.down done vs u →
    eval ctx fuel e u = .error h w → r = .error h w.up
  noTemplate : args = [] → r = .error (.error .missingTemplate) s
  /-- The type of the template counts when all arguments have their values. -/
  notText : ∀ {v vs u}, InTurn ctx fuel s.down args (v :: vs) u → v.type ≠ .text →
    r = .error (.error (.templateNotText v.type)) u.up
  value : ∀ {template vs u pieces v}, InTurn ctx fuel s.down args (.text template :: vs) u →
    CutAt template.toList pieces →
      v = .text (String.ofList (filled pieces (vs.map fun v => v.raw.toList))) →
    ctx.canRecord u = true → r = .ok v (u.recording ctx (.of (.list p (.atom t :: args)) v)).up
  unrecorded : ∀ {template vs u}, InTurn ctx fuel s.down args (.text template :: vs) u →
    ctx.canRecord u = false →
    r = .error (.error .sinkFull) u.up
  complete : (∃ vs u, InTurn ctx fuel s.down args vs u) ∨
    ∃ done e rest vs u h w, args = done ++ e :: rest ∧ InTurn ctx fuel s.down done vs u ∧
      eval ctx fuel e u = .error h w

section Calls

variable {ctx : Context} {fuel : Nat} {s : Session} {es : List Expr}

theorem evalEach_of_inTurn {vs : List Value} {u : Session} (h : InTurn ctx fuel s es vs u) :
    evalEach (eval ctx fuel) es s = .ok vs u := by
  induction h with
  | nil => rfl
  | cons hfirst _ ih =>
    rw [evalEach, bind_of_ok hfirst, bind_of_ok ih]
    rfl

theorem evalEach_of_first_failure {e : Expr} {rest : List Expr} {vs : List Value}
    {u w : Session} {h : Halt}
    (hdone : InTurn ctx fuel s es vs u) (hfail : eval ctx fuel e u = .error h w) :
    evalEach (eval ctx fuel) (es ++ e :: rest) s = .error h w := by
  induction hdone with
  | nil => exact bind_of_error hfail
  | cons hfirst _ ih =>
    rw [List.cons_append, evalEach, bind_of_ok hfirst, bind_of_error (ih hfail)]

theorem inTurn_or_first_failure (es : List Expr) (s : Session) :
    (∃ vs u, InTurn ctx fuel s es vs u) ∨
    ∃ done e rest vs u h w, es = done ++ e :: rest ∧ InTurn ctx fuel s done vs u ∧
      eval ctx fuel e u = .error h w := by
  induction es generalizing s with
  | nil => exact Or.inl ⟨[], s, .nil⟩
  | cons e es ih =>
    cases hfirst : eval ctx fuel e s with
    | error h w => exact Or.inr ⟨[], e, es, [], s, h, w, rfl, .nil, hfirst⟩
    | ok v t =>
      rcases ih t with ⟨vs, u, hrest⟩ | ⟨done, e', rest, vs, u, h, w, rfl, hdone, hfail⟩
      · exact Or.inl ⟨v :: vs, u, .cons hfirst hrest⟩
      · exact Or.inr ⟨e :: done, e', rest, v :: vs, u, h, w, rfl, .cons hfirst hdone, hfail⟩

theorem CallsFormat.plan {t : Token} (h : CallsFormat ctx s t) (p : Position) (args : List Expr) :
    ctx.plan s.down p (.atom t :: args) = .builtin ctx s.down args .format := by
  have hoperator : operatorOf? t = none := by
    unfold operatorOf?
    rw [h.head]
    split <;> rfl
  have hquote : ¬isQuote "format" = true := by decide
  have hdef : "format" ≠ "def" := by decide
  have hlookup : s.down.env.lookup? "format" = none := h.unbound
  have hfunction : s.down.env.function? "format" = none := h.undefined
  simp only [Context.plan, hoperator, if_neg hquote, if_neg hdef, Plan.call, h.head, hlookup,
    hfunction, h.builtin]

theorem format_conclude_text {args : List Expr} {template : String} {pieces : List (List Char)}
    (hcut : CutAt template.toList pieces) (vs : List Value) :
    (Plan.builtin ctx s args .format).conclude (.text template :: vs) =
      .ok (.text (String.ofList (filled pieces (vs.map fun v => v.raw.toList)))) := by
  rw [← fill_eq_filled hcut]
  rfl

theorem format_conclude_other {args : List Expr} {v : Value} (hv : v.type ≠ .text)
    (vs : List Value) :
    (Plan.builtin ctx s args .format).conclude (v :: vs) = .error (.templateNotText v.type) := by
  cases v with
  | text => exact absurd rfl hv
  | nil | int | float | list | function => rfl

theorem eval_format {t : Token} (h : CallsFormat ctx s t)
    (hb : ctx.barrier? (fuel + 1) s.depth = none) (p : Position)
    (args : List Expr) : FormatRules ctx fuel p t args s
      (eval ctx (fuel + 1) (.list p (.atom t :: args)) s) := by
  have hends := eval_list_ends hb p (.atom t :: args)
  rw [h.plan p args] at hends
  constructor
  case argument =>
    rintro done e rest vs u h w rfl hdone hfail
    exact hends.eq_of_part (evalEach_of_first_failure hdone hfail)
  case noTemplate =>
    rintro rfl
    have hparts : evalEach (eval ctx fuel) [] s.down = .ok [] s.down := rfl
    exact hends.eq_of_form hparts rfl
  case notText =>
    intro v vs u hturn hv
    exact hends.eq_of_form (evalEach_of_inTurn hturn) (format_conclude_other hv vs)
  case value =>
    rintro template vs u pieces v hturn hcut rfl hroom
    rw [hends.eq_of_value (evalEach_of_inTurn hturn) (format_conclude_text hcut vs), if_pos hroom]
  case unrecorded =>
    intro template vs u hturn hroom
    obtain ⟨pieces, hcut⟩ := exists_cutAt template.toList
    rw [hends.eq_of_value (evalEach_of_inTurn hturn) (format_conclude_text hcut vs), hroom]
    rfl
  case complete => exact inTurn_or_first_failure args s.down

end Calls

/-- A template is cut at its placeholders in one way, and `format` fills its pieces with the texts
of the other values. What these texts are does not change where they go: there are fixed gaps around
them, one more than there are texts. A call evaluates all its arguments in order before it looks at
the type of the template, and the first argument that fails ends it. -/
theorem format_fills_template :
    (∀ template : List Char, ∃! pieces, CutAt template pieces) ∧
    (∃ apply, Builtin.format = .eager apply ∧ ∀ (template : String) (vs : List Value)
      (pieces : List (List Char)),
      CutAt template.toList pieces →
      apply (.text template :: vs) =
        .ok (.text (String.ofList (filled pieces (vs.map fun v => v.raw.toList))))) ∧
    (∀ template pieces, CutAt template pieces → ∀ n, ∃ gaps : List (List Char),
      gaps.length = n + 1 ∧
      ∀ args, args.length = n → filled pieces args = weave gaps args) ∧
    ∀ (ctx : Context) (fuel : Nat) (p : Position) (t : Token) (args : List Expr) (s : Session),
      CallsFormat ctx s t →
      ctx.barrier? (fuel + 1) s.depth = none →
      FormatRules ctx fuel p t args s (eval ctx (fuel + 1) (.list p (.atom t :: args)) s) := by
  refine ⟨fun template => ?_, ⟨_, rfl, fun template vs pieces hcut => ?_⟩,
    fun template pieces hcut n => ?_, fun ctx fuel p t args s h hb => eval_format h hb p args⟩
  · obtain ⟨pieces, hpieces⟩ := exists_cutAt template
    exact ⟨pieces, hpieces, fun _ h => h.unique hpieces⟩
  · rw [← fill_eq_filled hcut]
  · obtain ⟨piece, rest, rfl⟩ := hcut.ne_nil
    exact filled_eq_weave n piece rest

def bracedTemplate : String := "\x7b\x7b\x7d\x7d\x7b\x7d"

theorem bracedTemplate_pieces : CutAt bracedTemplate.toList [['\x7b'], ['\x7d'], []] := by
  have hlast : CutAt [] [[]] := .whole (splitPlaceholder?_eq_none rfl)
  have hsecond : CutAt ['\x7d', '\x7b', '\x7d'] [['\x7d'], []] := hlast.of_split rfl
  exact hsecond.of_split (by decide +kernel)

def formatWord : Token := ⟨.word, "format", ⟨1, 2⟩⟩

def quotedWord (text : String) : Expr := .atom ⟨.text, "\"" ++ text ++ "\"", ⟨1, 9⟩⟩

/-- A placeholder goes between the braces, and there is one argument too many. -/
def seams : List Expr :=
  [quotedWord bracedTemplate, quotedWord "\x7b\x7d",
    .list ⟨1, 24⟩ [.atom ⟨.plus, "+", ⟨1, 25⟩⟩, .atom ⟨.numeric, "1", ⟨1, 27⟩⟩,
      .atom ⟨.numeric, "2", ⟨1, 29⟩⟩],
    quotedWord "\x7d"]

theorem seams_inTurn : ∃ u, InTurn (.plain "run" "0x1") 999 Session.start.down seams
    [.text bracedTemplate, .text "\x7b\x7d", .int 3, .text "\x7d"] u :=
  ⟨_, .cons rfl (.cons rfl (.cons rfl (.cons rfl .nil)))⟩

/-- The template is not a text, and the argument behind it is not defined. -/
def twoFaults : List Expr :=
  [.atom ⟨.numeric, "1", ⟨1, 9⟩⟩, .list ⟨1, 11⟩ [.atom ⟨.word, "x", ⟨1, 12⟩⟩]]

theorem format_fills_template_seams :
    CallsFormat (.plain "run" "0x1") .start formatWord ∧
    (∃ t, eval (.plain "run" "0x1") 1000 (.list ⟨1, 1⟩ (.atom formatWord :: seams)) .start =
      .ok (.text "\x7b\x7b\x7d\x7d3 \x7d") t) ∧
    (∃ t, eval (.plain "run" "0x1") 1000 (.list ⟨1, 1⟩ (.atom formatWord :: twoFaults)) .start =
      .error (.error (.unbound "x")) t) ∧
    ∃ t, eval (.plain "run" "0x1") 1000
      (.list ⟨1, 1⟩ [.atom formatWord, .atom ⟨.numeric, "1", ⟨1, 9⟩⟩]) .start =
      .error (.error (.templateNotText .int)) t := by
  have hcalls : CallsFormat (.plain "run" "0x1") .start formatWord := ⟨rfl, rfl, rfl, rfl⟩
  have hrules :=
    fun args => format_fills_template.2.2.2 (.plain "run" "0x1") 999
      ⟨1, 1⟩ formatWord args .start hcalls rfl
  have hnumber : InTurn (.plain "run" "0x1") 999 Session.start.down
    [.atom ⟨.numeric, "1", ⟨1, 9⟩⟩] [.int 1]
      Session.start.down := .cons rfl .nil
  refine ⟨hcalls, ?_, ?_, ?_⟩
  · obtain ⟨u, hturn⟩ := seams_inTurn
    exact ⟨_, (hrules seams).value hturn bracedTemplate_pieces rfl rfl⟩
  · exact ⟨_, (hrules twoFaults).argument rfl hnumber rfl⟩
  · exact ⟨_, (hrules _).notText hnumber (by decide)⟩

end ListLang
