import ListLang.Proofs.Flattening
import ListLang.Proofs.Formatting
import ListLang.Proofs.NumericLiterals
import ListLang.Proofs.QuotedLists
import ListLang.Proofs.QuotedText

/-! What a value shows of itself. The text of a value tells its type: it begins like no value of
another type, and a double never looks like an integer. Integers, strings and lists can be told from
their texts altogether. This relies on what evaluation makes lists of, so the evaluations that take
place when sources are run are said first. -/

namespace ListLang

open Eval

/-! Evaluations that take place. -/

/-- The sessions that sources leave behind, run one after the other from the start, whether they
fail or not. -/
inductive Session.Left (ctx : Context) : Session → Prop where
  | start : Left ctx .start
  | next {s : Session} (source : List UInt8) :
      Left ctx s → Left ctx (runIn ctx s (Text.decode source)).session

/-- The evaluations that take place when sources are run: of the expressions of a source in turn,
and of the parts of a list in turn. -/
inductive TakesPlace (ctx : Context) : Nat → Expr → Session → Prop where
  | source {source : List UInt8} {done rest : List Expr} {e : Expr} {vs : List Value}
      {s t : Session} :
      s.Left ctx → readBytes source = .ok (done ++ e :: rest) → InTurn ctx ctx.fuel s done vs t →
      TakesPlace ctx ctx.fuel e t
  | part {fuel : Nat} {p : Position} {items done rest : List Expr} {e : Expr} {vs : List Value}
      {s t : Session} :
      TakesPlace ctx (fuel + 1) (.list p items) s → ctx.barrier? (fuel + 1) s.depth = none →
      (ctx.plan s.down p items).parts = done ++ e :: rest →
      InTurn ctx fuel (ctx.plan s.down p items).session done vs t → TakesPlace ctx fuel e t

/-- The values that evaluations have, at any depth, also where the run fails in the end. -/
def Value.Produced (v : Value) : Prop :=
  ∃ ctx fuel e s t, ctx.builtins = Builtin.defaults ∧ TakesPlace ctx fuel e s ∧
    eval ctx fuel e s = .ok v t

namespace Kept

variable {ctx : Context} {E : Expr → Prop} {V : Value → Prop} {S : Session → Prop}
    (hK : Kept ctx E V S)
include hK

theorem inTurn {fuel : Nat} {es : List Expr} {vs : List Value} {s t : Session}
    (h : InTurn ctx fuel s es vs t) (hes : ∀ e ∈ es, E e) (hs : S s) : S t := by
  have hends := Kept.evalEach (hK.eval fuel) hes hs
  rw [evalEach_of_inTurn h] at hends
  exact hends.2

variable (hread : ∀ source es, readBytes source = .ok es → ∀ e ∈ es, E e) (hstart : S .start)
include hread hstart

theorem left {s : Session} (h : s.Left ctx) : S s := by
  induction h with
  | start => exact hstart
  | @next s source _ ih =>
    cases hes : readBytes source with
    | error fault =>
      rw [runIn_of_unread hes]
      exact ih
    | ok es =>
      have hends := hK.evalAll (hread source es hes) ih
      rw [runIn_of_read hes, session_ofResult]
      cases heval : ListLang.evalAll ctx es s with
      | ok vs t =>
        rw [heval] at hends
        exact hends.2
      | error h t =>
        rw [heval] at hends
        exact hends

/-- Whatever evaluation keeps, it can rely on wherever it takes place. -/
theorem takesPlace {fuel : Nat} {e : Expr} {s : Session} (h : TakesPlace ctx fuel e s) :
    E e ∧ S s := by
  induction h with
  | @source source done rest e vs s t hleft hes hturn =>
    have hall := List.forall_mem_append.1 (hread source _ hes)
    exact ⟨hall.2 e List.mem_cons_self, hK.inTurn hturn hall.1 (hK.left hread hstart hleft)⟩
  | @part fuel p items done rest e vs s t _ hb hparts hturn ih =>
    have hmade := plan_made ctx s.down p items
    have hs := hK.down ih.2
    have hall := hK.parts hmade hs ih.1
    rw [hparts, List.forall_mem_append] at hall
    exact ⟨hall.2 e List.mem_cons_self, hK.inTurn hturn hall.1 (hK.session hmade hs ih.1)⟩

theorem value {fuel : Nat} {e : Expr} {s t : Session} {v : Value} (h : TakesPlace ctx fuel e s)
    (heval : ListLang.eval ctx fuel e s = .ok v t) : V v := by
  obtain ⟨he, hs⟩ := hK.takesPlace hread hstart h
  have hends := hK.eval fuel e s he hs
  rw [heval] at hends
  exact hends.1

end Kept

theorem Value.Produced.spelled {v : Value} (h : v.Produced) : v.Spelled := by
  obtain ⟨ctx, fuel, e, s, t, hctx, hplace, heval⟩ := h
  have hread : ∀ source es, readBytes source = .ok es → ∀ e ∈ es, e.WellSpelled :=
    fun _ _ hes => Expr.allWellSpelled_iff.1 (read_wellSpelled hes)
  exact (spelled_kept (Context.spelled_of_defaults hctx)).value hread .start hplace heval

theorem Value.Produced.quoted {v : Value} (h : v.Produced) : v.Quoted := by
  obtain ⟨ctx, fuel, e, s, t, hctx, hplace, heval⟩ := h
  exact (quoted_kept hctx).value (fun _ _ _ _ _ => trivial) .start hplace heval

/-! The type of a text. -/

/-- The type of the values that have the text. -/
def shownType (cs : List Char) : ValueType :=
  if cs.head? = some ':' then .nil
  else if cs.head? = some '"' then .text
  else if cs.head? = some '(' then .list
  else if cs.head? = some '<' then .function
  else if cs.all isIntegerChar then .int
  else .float

section Shown

variable {cs : List Char}

theorem shownType_numeral (h : ∀ c ∈ cs, isNumeralChar c = true) :
    shownType cs = if cs.all isIntegerChar then .int else .float := by
  have hhead : ∀ c, isNumeralChar c = false → cs.head? ≠ some c := by
    intro c hc hfirst
    rw [h c (List.mem_of_head? hfirst)] at hc
    cases hc
  rw [shownType, if_neg (hhead ':' (by decide)), if_neg (hhead '"' (by decide)),
    if_neg (hhead '(' (by decide)), if_neg (hhead '<' (by decide))]

theorem shownType_int (n : Int64) : shownType (Value.int n).display.toList = .int := by
  have hdigits := integerChars_toDigits n.toInt.natAbs
  have hchars : ∀ c ∈ (intText n.toInt).toList, isIntegerChar c = true := by
    rw [toList_intText]
    split
    · exact List.forall_mem_cons.2 ⟨by decide, hdigits⟩
    · exact hdigits
  have hshown := shownType_numeral fun c hc => isNumeralChar_of_isIntegerChar (hchars c hc)
  rwa [if_pos (List.all_eq_true.2 hchars)] at hshown

theorem shownType_float (x : Float) : shownType (Value.float x).display.toList = .float := by
  have hchars : (Value.float x).display.toList = floatChars x := String.toList_ofList
  obtain ⟨c, hc, hmark⟩ := marked_floatChars x
  have hnot : ¬(floatChars x).all isIntegerChar = true := by
    intro hall
    rw [List.all_eq_true.1 hall c hc] at hmark
    cases hmark
  rw [hchars, shownType_numeral (numeralChars_floatChars x), if_neg hnot]

theorem shownType_text (s : String) : shownType (Value.text s).display.toList = .text := by
  have hchars : (Value.text s).display.toList = Text.quoteChars s.toList := String.toList_ofList
  rw [hchars]
  rfl

theorem shownType_list {e : Expr} (h : e.IsQuotation) :
    shownType (Value.list e).display.toList = .list := by
  obtain ⟨p, t, args, rfl, -, -⟩ := h
  have hchars : (Value.list (.list p (.atom t :: args))).display.toList =
      '(' :: ((Expr.encodeAll (.atom t :: args)).toList ++ [')']) := by
    rw [Value.display, Expr.encode, String.toList_append, String.toList_append]
    rfl
  rw [hchars]
  rfl

theorem shownType_function (f : Function) :
    shownType (Value.function f).display.toList = .function := by
  have hchars : ∃ cs, (Value.function f).display.toList = '<' :: cs := by
    rw [Value.display, Function.display, String.toList_append, String.toList_append,
      String.toList_append, String.toList_append]
    exact ⟨_, rfl⟩
  obtain ⟨cs, hcs⟩ := hchars
  rw [hcs]
  rfl

/-- The text of a value tells its type. -/
theorem shownType_display {v : Value} (h : v.Quoted) : shownType v.display.toList = v.type := by
  cases v with
  | nil => decide
  | int n => exact shownType_int n
  | float x => exact shownType_float x
  | text s => exact shownType_text s
  | list e => exact shownType_list h
  | function f => exact shownType_function f

end Shown

/-! The content of a text. -/

/-- Lists that print alike are alike: what is read from the text is like both of them. -/
theorem alike_of_display {d e : Expr} (hd : d.WellSpelled) (he : e.WellSpelled)
    (h : (Value.list d).display = (Value.list e).display) : d.Alike e := by
  obtain ⟨x, hx, hdx⟩ := read_display_list hd
  obtain ⟨y, hy, hey⟩ := read_display_list he
  rw [h, hy] at hx
  cases hx
  exact hdx.trans hey.symm

theorem eq_of_display {v w : Value} (htype : v.type = w.type) (h : v.display = w.display)
    (hkind : v.type = .nil ∨ v.type = .int ∨ v.type = .text) : v = w := by
  cases v with
  | nil =>
    cases w with
    | nil => rfl
    | _ => cases htype
  | int m =>
    cases w with
    | int n => rw [Int64.toInt_inj.1 (intText_injective h)]
    | _ => cases htype
  | text a =>
    cases w with
    | text b => rw [Text.quote_injective h]
    | _ => cases htype
  | float | list | function => simp [Value.type] at hkind

/-- Values that are shown alike are of one type. If they are nil, integers or strings they are the
same value, and if they are lists they have the same shape, with the same texts and kinds of
atoms. -/
theorem displays_are_unambiguous (v w : Value) (hv : v.Produced) (hw : w.Produced)
    (h : v.display = w.display) :
    v.type = w.type ∧ (v.type = .nil ∨ v.type = .int ∨ v.type = .text → v = w) ∧
      ∀ d e, v = .list d → w = .list e → d.same e = true ∧ d.Alike e := by
  have htype : v.type = w.type := by
    rw [← shownType_display hv.quoted, h, shownType_display hw.quoted]
  refine ⟨htype, eq_of_display htype h, ?_⟩
  rintro d e rfl rfl
  have halike := alike_of_display hv.spelled hw.spelled h
  exact ⟨halike.same_eq, halike⟩

/-- A quotation that is an argument. -/
def argumentQuotation : Expr :=
  .list ⟨1, 14⟩ [.atom ⟨.quote, "'", ⟨1, 15⟩⟩, .atom ⟨.word, "a", ⟨1, 17⟩⟩]

def argumentSource : List UInt8 := Text.bytes "(format \"\x7b\x7d\" (' a))"

theorem argumentSource_read : readBytes argumentSource =
    .ok ([] ++ .list ⟨1, 1⟩ [.atom formatWord, quotedWord "\x7b\x7d",
      argumentQuotation] :: []) := by
  have htokens : tokenize (Text.decode argumentSource) = .ok [⟨.openList, "(", ⟨1, 1⟩⟩, formatWord,
      ⟨.text, "\"\x7b\x7d\"", ⟨1, 9⟩⟩, ⟨.openList, "(", ⟨1, 14⟩⟩, ⟨.quote, "'", ⟨1, 15⟩⟩,
        ⟨.word, "a", ⟨1, 17⟩⟩,
      ⟨.closeList, ")", ⟨1, 18⟩⟩, ⟨.closeList, ")", ⟨1, 19⟩⟩, ⟨.endOfText, "", ⟨1, 20⟩⟩] := by
    decide +kernel
  rw [readBytes, read_of_tokenize htokens]
  rfl

theorem argumentQuotation_produced : (Value.list argumentQuotation).Produced := by
  have hcall : TakesPlace (.plain "run" "0x1") 1000 _ _ := .source .start argumentSource_read .nil
  have hparts : ((Context.plain "run" "0x1").plan Session.start.down ⟨1, 1⟩
      [.atom formatWord, quotedWord "\x7b\x7d", argumentQuotation]).parts =
        [quotedWord "\x7b\x7d"] ++ argumentQuotation :: [] := rfl
  exact ⟨.plain "run" "0x1", 999, argumentQuotation, _, _, rfl,
    .part hcall rfl hparts (.cons rfl .nil), rfl⟩

/-- The same quotation with more space in it, as the body of a function. -/
def bodyQuotation : Expr :=
  .list ⟨1, 10⟩ [.atom ⟨.quote, "'", ⟨1, 11⟩⟩, .atom ⟨.word, "a", ⟨1, 15⟩⟩]

def bodySource : List UInt8 := Text.bytes "(def f x ('   a)) (f)"

theorem bodySource_read : readBytes bodySource =
    .ok ([.list ⟨1, 1⟩ [.atom ⟨.word, "def", ⟨1, 2⟩⟩, .atom ⟨.word, "f", ⟨1, 6⟩⟩,
      .atom ⟨.word, "x", ⟨1, 8⟩⟩, bodyQuotation]] ++
      .list ⟨1, 19⟩ [.atom ⟨.word, "f", ⟨1, 20⟩⟩] :: []) := by
  have htokens : tokenize (Text.decode bodySource) =
    .ok [⟨.openList, "(", ⟨1, 1⟩⟩, ⟨.word, "def", ⟨1, 2⟩⟩,
      ⟨.word, "f", ⟨1, 6⟩⟩, ⟨.word, "x", ⟨1, 8⟩⟩, ⟨.openList, "(", ⟨1, 10⟩⟩, ⟨.quote, "'", ⟨1, 11⟩⟩,
        ⟨.word, "a", ⟨1, 15⟩⟩,
      ⟨.closeList, ")", ⟨1, 16⟩⟩, ⟨.closeList, ")", ⟨1, 17⟩⟩, ⟨.openList, "(", ⟨1, 19⟩⟩,
        ⟨.word, "f", ⟨1, 20⟩⟩,
      ⟨.closeList, ")", ⟨1, 21⟩⟩, ⟨.endOfText, "", ⟨1, 22⟩⟩] := by
    decide +kernel
  rw [readBytes, read_of_tokenize htokens]
  rfl

theorem bodyQuotation_produced : (Value.list bodyQuotation).Produced :=
  ⟨.plain "run" "0x1", 1000, .list ⟨1, 19⟩ [.atom ⟨.word, "f", ⟨1, 20⟩⟩], _, _, rfl,
    .source .start bodySource_read (.cons rfl .nil), rfl⟩

theorem displays_are_unambiguous_quotations :
    (Value.list argumentQuotation).Produced ∧ (Value.list bodyQuotation).Produced ∧
    (Value.list argumentQuotation).display = (Value.list bodyQuotation).display ∧
    argumentQuotation.same bodyQuotation = true ∧ argumentQuotation.Alike bodyQuotation := by
  have hshown : (Value.list argumentQuotation).display = (Value.list bodyQuotation).display := by
    decide +kernel
  obtain ⟨-, -, hlists⟩ := displays_are_unambiguous (.list argumentQuotation) (.list bodyQuotation)
    argumentQuotation_produced bodyQuotation_produced hshown
  exact ⟨argumentQuotation_produced, bodyQuotation_produced, hshown, hlists _ _ rfl rfl⟩

end ListLang
