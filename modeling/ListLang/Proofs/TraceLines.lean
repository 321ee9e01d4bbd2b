import ListLang.Proofs.FloatText
import ListLang.Proofs.Related
import ListLang.Proofs.RoundTrip
import ListLang.Proofs.Segments
import ListLang.Trace.Item

/-! A trace in the text format has one line for each record. No token holds a line feed, so no
expression and no name of a function does; strings are written with escapes, and numbers with
digits. Values keep that up: the lists and functions among them are made of what was read. -/

namespace ListLang

open Eval

/-! Texts that fit on a line. -/

def OneLine (s : String) : Prop := '\n' ∉ s.toList

instance (s : String) : Decidable (OneLine s) := inferInstanceAs (Decidable ('\n' ∉ s.toList))

section Texts

theorem OneLine.append {a b : String} (ha : OneLine a) (hb : OneLine b) : OneLine (a ++ b) := by
  rw [OneLine, String.toList_append, List.mem_append, not_or]
  exact ⟨ha, hb⟩

theorem oneLine_ofList {cs : List Char} : OneLine (String.ofList cs) ↔ '\n' ∉ cs := by
  rw [OneLine, String.toList_ofList]

/-- Lines that are each ended by a line feed are what a cut at the line feeds gives, with nothing
after the last. -/
theorem splitOn_lines {lines : List (List Char)} (h : ∀ line ∈ lines, '\n' ∉ line) :
    (lines.flatMap (· ++ ['\n'])).splitOn '\n' = lines ++ [[]] := by
  have hjoin : lines.flatMap (· ++ ['\n']) = ['\n'].intercalate (lines ++ [[]]) := by
    clear h
    induction lines with
    | nil => rfl
    | cons line lines ih =>
      rw [List.flatMap_cons, ih, List.cons_append, List.intercalate_cons_of_ne_nil (by simp)]
  rw [hjoin]
  refine List.splitOn_intercalate '\n' (fun line hline => ?_) (by simp)
  rcases List.mem_append.1 hline with hline | hline
  · exact h line hline
  · simp [List.mem_singleton.1 hline]

theorem oneLine_of_numeralChars {cs : List Char} (h : ∀ c ∈ cs, isNumeralChar c = true) :
    OneLine (String.ofList cs) := by
  rw [oneLine_ofList]
  intro hm
  exact absurd (h '\n' hm) (by decide)

theorem oneLine_intText (i : Int) : OneLine (intText i) := by
  have hnat : OneLine (natText i.natAbs) := oneLine_of_numeralChars (numeralChars_toDigits _)
  unfold intText
  split
  · exact OneLine.append (by decide) hnat
  · exact hnat

theorem oneLine_floatText (x : Float) : OneLine (floatText x) :=
  oneLine_of_numeralChars (numeralChars_floatChars x)

theorem newline_notMem_hex (width n : Nat) : '\n' ∉ Text.hex width n := by
  have hdigit : ∀ k < 16, '\n' ≠ Nat.digitChar k := by decide
  induction width generalizing n with
  | zero => simp [Text.hex]
  | succ w ih =>
    rw [Text.hex, List.mem_append, not_or, List.mem_singleton]
    exact ⟨ih _, hdigit _ (Nat.mod_lt _ (by decide))⟩

theorem newline_notMem_escape (c : Char) : '\n' ∉ Text.escape c := by
  have hletter : ∀ l, Text.controlLetter? c = some l → l ≠ '\n' := by
    intro l hl
    unfold Text.controlLetter? at hl
    split at hl <;> simp at hl <;> simp [← hl]
  unfold Text.escape
  split
  · rename_i hquote
    have hc : '\n' ≠ c := by
      rintro rfl
      simp at hquote
    simpa using hc
  split
  · rename_i hprintable
    have hc : '\n' ≠ c := by
      rintro rfl
      revert hprintable
      decide +kernel
    simpa using hc
  split
  · rename_i l hl
    simpa using (hletter l hl).symm
  split
  · simp [newline_notMem_hex]
  split <;> simp [newline_notMem_hex]

theorem oneLine_quote (s : String) : OneLine (Text.quote s) := by
  refine oneLine_ofList.2 ?_
  simp [Text.quoteChars, newline_notMem_escape]

theorem oneLine_encode {e : Expr} (h : e.WellSpelled) : OneLine e.encode := by
  have hspells : Spells (e.encode.toList ++ []) (e.lexemes ++ []) :=
    spells_encode e h (by simp [Delimited]) .nil
  rw [List.append_nil] at hspells
  exact hspells.newline_notMem

end Texts

/-! Values and sessions that are made of what was read. -/

structure Function.Spelled (f : Function) : Prop where
  name : OneLine f.name
  param : ∀ e ∈ f.param, e.WellSpelled
  body : ∀ e ∈ f.body, e.WellSpelled

def Value.Spelled : Value → Prop
  | .list e => e.WellSpelled
  | .function f => f.Spelled
  | _ => True

structure TraceRecord.OneLine (r : TraceRecord) : Prop where
  expression : ListLang.OneLine r.expression
  value : ListLang.OneLine r.value

structure Session.Spelled (s : Session) : Prop where
  functions : ∀ f ∈ s.env.functions, f.Spelled
  bindings : ∀ b ∈ s.env.bindings, ∀ v ∈ b.value, v.Spelled
  trace : ∀ r ∈ s.trace, r.OneLine

/-- A builtin that gives such values for such arguments. -/
def Builtin.Spelled : Builtin → Prop
  | .eager apply => ∀ vs v, (∀ w ∈ vs, w.Spelled) → apply vs = .ok v → v.Spelled
  | .lazy apply => ∀ site args v, (∀ e ∈ args, e.WellSpelled) → apply site args = .ok v → v.Spelled

def Context.Spelled (ctx : Context) : Prop := ∀ name b, ctx.builtin? name = some b → b.Spelled

theorem Value.Spelled.oneLine {v : Value} (h : v.Spelled) : OneLine v.display := by
  cases v with
  | nil => decide
  | int n => exact oneLine_intText _
  | float x => exact oneLine_floatText x
  | text s => exact oneLine_quote s
  | list e => exact oneLine_encode h
  | function f =>
    have hparam : OneLine (Expr.encodeOption f.param) := by
      cases hf : f.param with
      | none => decide
      | some e => exact oneLine_encode (h.param e hf)
    have hopen : OneLine "<function " := by decide
    exact (((hopen.append h.name).append (by decide)).append hparam).append (by decide)

theorem TraceRecord.oneLine_of {e : Expr} {v : Value} (he : e.WellSpelled) (hv : v.Spelled) :
    (TraceRecord.of e v).OneLine :=
  ⟨oneLine_encode he, hv.oneLine⟩

theorem format_spelled : Builtin.format.Spelled := by
  intro vs v _ h
  obtain ⟨a, rfl⟩ := format_text rfl h
  trivial

theorem Context.spelled_of_defaults {ctx : Context} (h : ctx.builtins = Builtin.defaults) :
    ctx.Spelled := by
  intro name b hb
  rw [builtin?_of_defaults h hb]
  exact format_spelled

namespace Session.Spelled

variable {s : Session} (h : s.Spelled)
include h

theorem lookup {name : String} {v : Value} (hv : s.env.lookup? name = some v) : v.Spelled :=
  lookup?_of_bindings (V := Value.Spelled) trivial h.bindings hv

theorem function {name : String} {f : Function} (hf : s.env.function? name = some f) : f.Spelled :=
  h.functions f (Array.mem_of_find?_eq_some hf)

theorem noting (ctx : Context) (event : JournalEvent) (f : Function) :
    (s.noting ctx event f).Spelled :=
  ⟨h.functions, h.bindings, h.trace⟩

theorem define {f : Function} (hf : f.Spelled) :
    Session.Spelled { s with env := s.env.define f } := by
  refine ⟨fun g hg => ?_, h.bindings, h.trace⟩
  rcases Array.mem_push.1 hg with hg | rfl
  · exact h.functions g hg
  · exact hf

theorem bind (param : Option Expr) : Session.Spelled { s with env := s.env.bind param none } :=
  ⟨h.functions, bindings_of_bind h.bindings param, h.trace⟩

theorem recording (ctx : Context) {r : TraceRecord} (hr : r.OneLine) :
    (s.recording ctx r).Spelled := by
  refine ⟨h.functions, h.bindings, fun q hq => ?_⟩
  simp only [Session.recording] at hq
  split at hq
  · rcases Array.mem_push.1 hq with hq | rfl
    · exact h.trace q hq
    · exact hr
  · exact h.trace q hq

end Session.Spelled

theorem wellSpelled_cons {p : Position} {e : Expr} {es : List Expr}
    (h : (Expr.list p (e :: es)).WellSpelled) :
    e.WellSpelled ∧ ∀ e' ∈ es, e'.WellSpelled :=
  ⟨h.1, Expr.allWellSpelled_iff.1 h.2⟩

theorem definition_spelled {p : Position} {t name : Token} {param : Expr} {body : List Expr}
    (h : (Expr.list p (.atom t :: .atom name :: param :: body)).WellSpelled) :
    Function.Spelled ⟨name.text, some param, body⟩ := by
  obtain ⟨-, hname, hparam, hbody⟩ := h
  refine ⟨hname.1.newline_notMem, fun e he => ?_, Expr.allWellSpelled_iff.1 hbody⟩
  rw [← Option.some.inj he]
  exact hparam

/-- Evaluation makes lists and functions of nothing but what was read. -/
theorem spelled_kept {ctx : Context} (hctx : ctx.Spelled) :
    Kept ctx Expr.WellSpelled Value.Spelled Session.Spelled where
  literal {t l} _ _ := by cases l <;> trivial
  down h := ⟨h.functions, h.bindings, h.trace⟩
  up h := ⟨h.functions, h.bindings, h.trace⟩
  record hs he hv := hs.recording ctx (TraceRecord.oneLine_of he hv)
  session hmade hs he := by
    cases hmade with
    | definition t name param body =>
      exact (hs.define (definition_spelled he)).noting ctx .define _
    | function t args hf => exact (hs.bind _).noting ctx .call _
    | @builtin t args b hb => cases b <;> exact hs
    | _ => exact hs
  parts hmade hs he := by
    cases hmade with
    | arithmetic t op x y => exact (wellSpelled_cons he).2
    | function t args hf => exact (hs.function hf).body
    | @builtin t args b hb =>
      cases b with
      | eager apply => exact (wellSpelled_cons he).2
      | lazy apply => exact fun e h => absurd h List.not_mem_nil
    | _ => exact fun e h => absurd h List.not_mem_nil
  conclude hmade hs he vs hvs v hv := by
    cases hmade.yields hv with
    | nil => trivial
    | number n => cases n <;> trivial
    | quote t args _ _ => exact he
    | definition t name param body => exact definition_spelled he
    | bound hlookup => exact hs.lookup hlookup
    | last hmem => exact hvs v hmem
    | @builtin t args b _ _ hb hv =>
      have hb := hctx t.text b hb
      cases b with
      | eager apply => exact hb vs v hvs hv
      | lazy apply => exact hb _ args v (wellSpelled_cons he).2 hv

theorem Session.Spelled.start : Session.start.Spelled :=
  ⟨fun _ h => absurd h (Array.not_mem_empty _), fun _ h => absurd h (Array.not_mem_empty _),
    fun _ h => absurd h (Array.not_mem_empty _)⟩

theorem runIn_spelled {ctx : Context} (hctx : ctx.Spelled) {s : Session} (hs : s.Spelled)
    (text : List Char) :
    (runIn ctx s text).session.Spelled := by
  unfold runIn
  cases hread : read text with
  | error e => exact hs
  | ok es =>
    have hends :=
      (spelled_kept hctx).evalAll (Expr.allWellSpelled_iff.1 (read_wellSpelled hread)) hs
    simp only
    cases heval : evalAll ctx es s with
    | ok vs t =>
      rw [heval] at hends
      exact hends.2
    | error h t =>
      rw [heval] at hends
      exact hends

/-! Records and lines. -/

/-- The line of a record without the line feed that ends it. -/
def TraceRecord.content (r : TraceRecord) : String :=
  "== Evaluate S-expression " ++ r.expression ++ " that produces " ++ r.value ++ "(" ++
    r.type.name ++ ")"

theorem line_eq_content (r : TraceRecord) : r.line = r.content ++ "\n" := by
  have hend : ")\n" = ")" ++ "\n" := by decide
  unfold TraceRecord.line TraceRecord.content
  rw [hend]
  simp only [String.append_assoc]

theorem oneLine_content {r : TraceRecord} (h : r.OneLine) : OneLine r.content := by
  have hfirst : OneLine "== Evaluate S-expression " := by decide +kernel
  have hmiddle : OneLine " that produces " := by decide +kernel
  have htype : OneLine r.type.name := by cases r.type <;> decide
  have hvalue := ((hfirst.append h.expression).append hmiddle).append h.value
  exact ((hvalue.append (by decide)).append htype).append (by decide)

/-- Cut at its line feeds, the text of a trace is a line for each record. -/
theorem renderTrace_lines (id : String) {records : List TraceRecord}
    (h : ∀ r ∈ records, r.OneLine) :
    (renderTrace .text id records).toList.splitOn '\n' =
      records.map (fun r => r.content.toList) ++ [[]] := by
  have hline : ∀ r : TraceRecord,
      (r.renderBy TraceRecord.yaml .text id).toList = r.content.toList ++ ['\n'] := by
    intro r
    rw [TraceRecord.renderBy, line_eq_content, String.toList_append]
    rfl
  have htext : (renderTrace .text id records).toList =
      (records.map fun r => r.content.toList).flatMap (· ++ ['\n']) := by
    rw [renderTrace, renderTraceBy, String.toList_join, List.flatMap_map, List.flatMap_map]
    simp only [hline]
  rw [htext]
  refine splitOn_lines fun line hline => ?_
  obtain ⟨r, hr, rfl⟩ := List.mem_map.1 hline
  exact oneLine_content (h r hr)

/-- Whatever is evaluated, to its end or to a failure, the trace grows by the segments of what was
evaluated, and only by those. The text of a trace has one line for each record of it: neither the
expression nor the value of a record holds a line feed. Builtins that a host adds must not make up
tokens, as those of every run do not. -/
theorem trace_follows_evaluation :
    (∀ (ctx : Context) (es : List Expr) (s : Session),
      (∀ vs t, evalAll ctx es s = .ok vs t → ∃ segments, EvaluatesAll ctx s es vs t segments ∧
        t.trace.toList = s.trace.toList ++ ctx.kept segments.flatten) ∧
      ∀ h t, evalAll ctx es s = .error h t → ∃ segments, FailsAmong ctx s es h t segments ∧
        t.trace.toList = s.trace.toList ++ ctx.kept segments.flatten) ∧
    ∀ (ctx : Context) (source : List UInt8) (records : List TraceRecord),
      ctx.builtins = Builtin.defaults ∨ ctx.Spelled →
      (run ctx (Text.decode source)).session.trace.toList = records →
      (∀ r ∈ records, OneLine r.expression ∧ OneLine r.value ∧ OneLine r.content ∧ r.line =
        r.content ++ "\n") ∧
      (renderTrace .text ctx.id records).toList.splitOn '\n' =
        records.map (fun r => r.content.toList) ++ [[]] := by
  refine ⟨fun ctx es s => ?_, ?_⟩
  · have haccount := evalAll_accounted ctx es s
    constructor
    · intro vs t heval
      rw [heval] at haccount
      cases haccount with
      | values hall htrace => exact ⟨_, hall, htrace⟩
    · intro h t heval
      rw [heval] at haccount
      cases haccount with
      | error hamong htrace => exact ⟨_, hamong, htrace⟩
  · rintro ctx source records hctx rfl
    have hspelled : ctx.Spelled := hctx.elim Context.spelled_of_defaults id
    have hsession := runIn_spelled hspelled .start (Text.decode source)
    have hlines : ∀ r ∈ (run ctx (Text.decode source)).session.trace.toList, r.OneLine :=
      fun r hr => hsession.trace r (Array.mem_toList_iff.1 hr)
    exact ⟨fun r hr => ⟨(hlines r hr).expression, (hlines r hr).value,
      oneLine_content (hlines r hr), line_eq_content r⟩, renderTrace_lines ctx.id hlines⟩

/-- The default settings, with a trace. -/
def lined : Context := { Context.plain "run" "0x1" with tracer := some ⟨.text, none⟩ }

def forestOf (source : List UInt8) : List Expr := (readBytes source).toOption.getD []

/-- A call within a call, with a string over two lines, an atom, and a quotation. -/
def tracedCalls : List UInt8 :=
  Text.bytes "(def f x (+ 1 (* 2 3)) (format \"a\nb\" (+ 1 1)))\n(f) 7 (' (+ 1 2))"

/-- A sum that fails after another one. -/
def tracedFailure : List UInt8 := Text.bytes "(format \"a\" (+ 1 2) (+ 1 \"b\") (+ 3 4))"

theorem trace_follows_evaluation_calls :
    (∃ vs t segments, evalAll lined (forestOf tracedCalls) .start = .ok vs t ∧
      EvaluatesAll lined .start (forestOf tracedCalls) vs t segments ∧
      t.trace.toList = lined.kept segments.flatten ∧ t.trace.size = 7) ∧
    (∃ h t segments, evalAll lined (forestOf tracedFailure) .start = .error h t ∧
      FailsAmong lined .start (forestOf tracedFailure) h t segments ∧
      t.trace.toList = lined.kept segments.flatten ∧ t.trace.size = 1) ∧
    ∃ records, (run lined (Text.decode tracedCalls)).session.trace.toList = records ∧
      records.length = 7 ∧
      (∀ r ∈ records, OneLine r.content) ∧
      (renderTrace .text lined.id records).toList.splitOn '\n' =
        records.map (fun r => r.content.toList) ++ [[]] := by
  have hcalls : (answer (evalAll lined (forestOf tracedCalls) .start)).isOk = true ∧
      (final (evalAll lined (forestOf tracedCalls) .start)).trace.size = 7 := by
    decide +kernel
  have hfailure : (answer (evalAll lined (forestOf tracedFailure) .start)).isOk = false ∧
      (final (evalAll lined (forestOf tracedFailure) .start)).trace.size = 1 := by
    decide +kernel
  have hrecords : (run lined (Text.decode tracedCalls)).session.trace.toList.length = 7 := by
    decide +kernel
  obtain ⟨hlines, hsplit⟩ := trace_follows_evaluation.2 lined tracedCalls _ (Or.inl rfl) rfl
  refine ⟨?_, ?_, _, rfl, hrecords, fun r hr => (hlines r hr).2.2.1, hsplit⟩
  · cases heval : evalAll lined (forestOf tracedCalls) .start with
    | error h t =>
      rw [heval] at hcalls
      cases hcalls.1
    | ok vs t =>
      rw [heval] at hcalls
      obtain ⟨segments, hall, htrace⟩ := (trace_follows_evaluation.1 lined _ .start).1 vs t heval
      exact ⟨vs, t, segments, rfl, hall, htrace, hcalls.2⟩
  · cases heval : evalAll lined (forestOf tracedFailure) .start with
    | ok vs t =>
      rw [heval] at hfailure
      cases hfailure.1
    | error h t =>
      rw [heval] at hfailure
      obtain ⟨segments, hamong, htrace⟩ := (trace_follows_evaluation.1 lined _ .start).2 h t heval
      exact ⟨h, t, segments, rfl, hamong, htrace, hfailure.2⟩

end ListLang
