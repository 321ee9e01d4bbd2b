import ListLang.Proofs.Flattening
import ListLang.Proofs.Scanning

/-! Parsers that are run again. The first run reads the text and answers as reading it does. After
that there is nothing left to read: every later run gives one and the same answer, and the
expressions stay as they are. A text that is refused leaves none. -/

namespace ListLang

/-! One run. -/

namespace Parser

/-- Where a parser comes to when reading gives this result. Of what was read before an error nothing
is said. -/
inductive ComesTo (p : Parser) : Except ReadError (List Expr) → Parser → Prop where
  | forest (es : List Expr) (taken : Nat) :
      ComesTo p (.ok es) { p with offset := taken, expressions := es }
  | error (e : ReadError) (taken : Nat) (es : List Expr) :
      ComesTo p (.error e) { p with offset := taken, expressions := es, failure := some e }

variable {p q : Parser} {text : List Char} {us ts : List Token} {e : ReadError}

theorem ComesTo.of_taken {r : Except ReadError (List Expr)} {n : Nat}
    (h : ComesTo { p with offset := n } r q) :
    ComesTo p r q := by
  cases h with
  | forest es taken => exact .forest es taken
  | error e taken es => exact .error e taken es

theorem finish_comesTo (p : Parser) (opened : List Frame) (done : List Expr) :
    ComesTo p (ListLang.finish opened done) (p.finish opened done) := by
  cases opened with
  | nil => exact .forest _ p.offset
  | cons f opened => exact .error _ p.offset _

theorem readOn_comesTo (p : Parser) (opened : List Frame) (done : List Expr) (ts : List Token) :
    ComesTo p (build opened done ts) (p.readOn opened done ts) := by
  fun_induction build opened done ts generalizing p with
  | case1 opened done => exact p.finish_comesTo opened done
  | case2 opened done t ts hend =>
    rw [readOn.eq_def]
    simp only [if_pos hend]
    exact (finish_comesTo _ opened done).of_taken
  | case3 opened done t ts hend hopen ih =>
    rw [readOn.eq_def]
    simp only [if_neg hend, if_pos hopen]
    exact (ih _).of_taken
  | case4 done t ts hend hopen hclose =>
    rw [readOn, if_neg hend, if_neg hopen, if_pos hclose]
    exact .error _ _ _
  | case5 done t ts hend hopen hclose f opened ih =>
    rw [readOn, if_neg hend, if_neg hopen, if_pos hclose]
    exact (ih _).of_taken
  | case6 opened done t ts hend hopen hclose hatom ih =>
    rw [readOn.eq_def]
    simp only [if_neg hend, if_neg hopen, if_neg hclose, if_pos hatom]
    exact (ih _).of_taken
  | case7 opened done t ts hend hopen hclose hatom =>
    rw [readOn.eq_def]
    simp only [if_neg hend, if_neg hopen, if_neg hclose, if_neg hatom]
    exact .error _ _ _

/-- A run over a text that is made of tokens takes those that no earlier run has counted. -/
theorem parse_of_tokens (hobstacle : p.obstacle = none) (h : tokenize p.text = .ok us) :
    p.parse = (readOn { p with text := [], tokens := us } [] p.expressions.reverse
      (us.drop p.offset)).conclude := by
  obtain ⟨hscan, hfinished⟩ := Lexer.scan_of_tokens h
  simp only [parse, hobstacle, hscan, hfinished.tokens, Option.getD_some]

theorem parse_of_error (hobstacle : p.obstacle = none) (h : tokenize p.text = .error e) :
    p.parse = (.error e, { p with text := [] }) := by
  simp only [parse, hobstacle, scan_of_error h]

theorem ComesTo.conclude_forest {es : List Expr} (h : ComesTo p (.ok es) q)
    (hp : p.failure = none) :
    ∃ n, q.conclude = (.ok (), { p with offset := n, expressions := es }) := by
  cases h with
  | forest _ n => exact ⟨n, by simp [conclude, hp]⟩

theorem ComesTo.conclude_error (h : ComesTo p (.error e) q) :
    ∃ n, q.conclude = (.error e, { p with offset := n, expressions := [], failure := some e }) := by
  cases h with
  | error _ n es => exact ⟨n, rfl⟩

theorem parse_of_forest {es : List Expr} (htokens : tokenize text = .ok us)
    (h : forest us = .ok es) :
    ∃ n, (ofText text).parse = (.ok (), ⟨[], none, us, n, es, none⟩) := by
  have hreads := readOn_comesTo { ofText text with text := [], tokens := us } [] [] us
  rw [show build [] [] us = .ok es from h] at hreads
  rw [parse_of_tokens rfl htokens]
  exact hreads.conclude_forest rfl

theorem parse_of_forest_error (htokens : tokenize text = .ok us) (h : forest us = .error e) :
    ∃ n, (ofText text).parse = (.error e, ⟨[], none, us, n, [], some e⟩) := by
  have hreads := readOn_comesTo { ofText text with text := [], tokens := us } [] [] us
  rw [show build [] [] us = .error e from h] at hreads
  rw [parse_of_tokens rfl htokens]
  exact hreads.conclude_error

end Parser

/-! Runs after the first. -/

namespace Parser

variable {p : Parser} {es : List Expr} {answer : Except ReadError Unit}

/-- A parser that has no text left, and would answer so if it ended now. -/
structure Spent (answer : Except ReadError Unit) (es : List Expr) (p : Parser) : Prop where
  obstacle : p.obstacle = none
  text : p.text = []
  expressions : p.expressions = es
  conclude : p.conclude = (answer, p)

/-- Where the text has ended, whatever was taken before, nothing is read. -/
theorem readOn_end (p : Parser) (t : Token) (ht : t.kind = .endOfText) (taken : Nat) :
    ∃ n, p.readOn [] p.expressions.reverse ([t].drop taken) = { p with offset := n } := by
  cases taken with
  | zero => exact ⟨p.offset + 1, by simp [readOn, ht, finish]⟩
  | succ taken => exact ⟨p.offset, by simp [readOn, finish]⟩

theorem Spent.parse (h : Spent answer es p) : p.parse.1 = answer ∧ Spent answer es p.parse.2 := by
  have htokens : tokenize p.text = .ok [endToken []] := by
    rw [h.text]
    exact tokenize_eq_ok.2 ⟨[], by rw [glyphs, glyphsFrom, pieces]; rfl, rfl⟩
  obtain ⟨n, hn⟩ :=
    readOn_end { p with text := [], tokens := [endToken []] } (endToken []) rfl p.offset
  rw [parse_of_tokens h.obstacle htokens, hn]
  obtain ⟨text, obstacle, tokens, offset, expressions, failure⟩ := p
  have hconclude := h.conclude
  cases failure with
  | none =>
    cases hconclude
    exact ⟨rfl, h.obstacle, rfl, h.expressions, rfl⟩
  | some e =>
    cases hconclude
    exact ⟨rfl, h.obstacle, rfl, h.expressions, rfl⟩

end Parser

/-! Any number of runs, with looks at the expressions between them. -/

inductive ParserCall where
  | parse
  | expressions
  | count
  deriving DecidableEq

inductive ParserAnswer where
  | parsed (r : Except ReadError Unit)
  | shown (es : List Expr)
  | counted (n : Nat)

namespace Parser

def call (p : Parser) : ParserCall → ParserAnswer × Parser
  | .parse => (.parsed p.parse.1, p.parse.2)
  | .expressions => (.shown p.expressions, p)
  | .count => (.counted p.expressions.length, p)

def answers (p : Parser) : List ParserCall → List ParserAnswer
  | [] => []
  | c :: cs => (p.call c).1 :: (p.call c).2.answers cs

end Parser

/-- The answer of a parser that always answers this and always holds these expressions. -/
def ParserCall.reply (answer : Except ReadError Unit) (es : List Expr) : ParserCall → ParserAnswer
  | .parse => .parsed answer
  | .expressions => .shown es
  | .count => .counted es.length

/-- There are no expressions until the first run, which answers `first`. From then on every run
answers `later`, and the expressions are always `es`. -/
def script (first later : Except ReadError Unit) (es : List Expr) :
    List ParserCall → List ParserAnswer
  | [] => []
  | .parse :: cs => .parsed first :: cs.map (ParserCall.reply later es)
  | .expressions :: cs => .shown [] :: script first later es cs
  | .count :: cs => .counted 0 :: script first later es cs

namespace Parser

variable {p : Parser} {es : List Expr} {first later : Except ReadError Unit}

/-- A property of parsers that runs keep, and that settles the answer and the expressions, settles
all answers. -/
theorem answers_of_kept {I : Parser → Prop}
    (hI : ∀ p, I p → p.expressions = es ∧ p.parse.1 = later ∧ I p.parse.2) (hp : I p)
      (cs : List ParserCall) :
    p.answers cs = cs.map (ParserCall.reply later es) := by
  induction cs generalizing p with
  | nil => rfl
  | cons c cs ih =>
    obtain ⟨hexpressions, hparse, hnext⟩ := hI p hp
    cases c with
    | parse => simp [answers, call, ParserCall.reply, hparse, ih hnext]
    | expressions => simp [answers, call, ParserCall.reply, hexpressions, ih hp]
    | count => simp [answers, call, ParserCall.reply, hexpressions, ih hp]

theorem answers_eq_script (hempty : p.expressions = []) (hfirst : p.parse.1 = first)
    (hlater : ∀ cs, p.parse.2.answers cs = cs.map (ParserCall.reply later es))
      (cs : List ParserCall) :
    p.answers cs = script first later es cs := by
  induction cs with
  | nil => rfl
  | cons c cs ih =>
    cases c with
    | parse => simp [answers, call, script, hfirst, hlater]
    | expressions => simp [answers, call, script, hempty, ih]
    | count => simp [answers, call, script, hempty, ih]

theorem Spent.answers (h : Spent later es p) (cs : List ParserCall) :
    p.answers cs = cs.map (ParserCall.reply later es) :=
  answers_of_kept (I := Spent later es) (fun _ hp => ⟨hp.expressions, hp.parse⟩) h cs

end Parser

/-- Whatever is asked of a parser and in whatever order, the answers are told by its first run. If
the source can be read, every run succeeds and the expressions are those of the source, once. If its
parentheses are wrong, every run reports the same error; if its characters are wrong, the first run
reports it and later ones find an empty text; if it cannot be had, every run fails. In all these
cases there are no expressions at any time. -/
theorem reparsing_is_stable (source : List UInt8) (cs : List ParserCall) :
    (∀ es, readBytes source = .ok es →
      (Parser.ofText (Text.decode source)).answers cs = script (.ok ()) (.ok ()) es cs) ∧
    (∀ us e, tokenize (Text.decode source) = .ok us → readBytes source = .error e →
      (Parser.ofText (Text.decode source)).answers cs = script (.error e) (.error e) [] cs) ∧
    (∀ e, tokenize (Text.decode source) = .error e →
      (Parser.ofText (Text.decode source)).answers cs = script (.error e) (.ok ()) [] cs) ∧
    ∀ reason,
      Parser.answers { Parser.ofText (Text.decode source) with obstacle := some reason } cs =
      script (.error (.unreadable reason)) (.error (.unreadable reason)) [] cs := by
  rw [readBytes]
  generalize Text.decode source = text
  refine ⟨fun es hes => ?_, fun us e hus he => ?_, fun e he => ?_, fun reason => ?_⟩
  · cases htokens : tokenize text with
    | error e =>
      rw [read, htokens] at hes
      cases hes
    | ok us =>
      rw [read_of_tokenize htokens] at hes
      obtain ⟨n, hparse⟩ := Parser.parse_of_forest htokens hes
      refine Parser.answers_eq_script rfl (by rw [hparse]) (fun cs => ?_) cs
      rw [hparse]
      exact Parser.Spent.answers ⟨rfl, rfl, rfl, rfl⟩ cs
  · rw [read_of_tokenize hus] at he
    obtain ⟨n, hparse⟩ := Parser.parse_of_forest_error hus he
    refine Parser.answers_eq_script rfl (by rw [hparse]) (fun cs => ?_) cs
    rw [hparse]
    exact Parser.Spent.answers ⟨rfl, rfl, rfl, rfl⟩ cs
  · have hparse : (Parser.ofText text).parse = _ := Parser.parse_of_error rfl he
    refine Parser.answers_eq_script rfl (by rw [hparse]) (fun cs => ?_) cs
    rw [hparse]
    exact Parser.Spent.answers ⟨rfl, rfl, rfl, rfl⟩ cs
  · refine Parser.answers_eq_script rfl rfl (fun cs => ?_) cs
    exact Parser.answers_of_kept (I := (· = { Parser.ofText text with obstacle := some reason }))
      (fun p hp => by subst hp; exact ⟨rfl, rfl, rfl⟩) rfl cs

/-- Two runs, with looks at the expressions before, between and after them. -/
def twoRuns : List ParserCall := [.count, .parse, .expressions, .parse, .expressions, .count]

theorem reparsing_is_stable_twoRuns :
    (∃ es, readBytes nestedSource = .ok es ∧
      (Parser.ofText (Text.decode nestedSource)).answers twoRuns =
      [.counted 0, .parsed (.ok ()), .shown es, .parsed (.ok ()), .shown es, .counted 2]) ∧
    (∃ us e, tokenize (Text.decode unbalancedSource) = .ok us ∧
      readBytes unbalancedSource = .error e ∧
      (Parser.ofText (Text.decode unbalancedSource)).answers twoRuns =
        [.counted 0, .parsed (.error e), .shown [], .parsed (.error e), .shown [], .counted 0]) ∧
    (tokenize (Text.decode openString) = .error (.unterminatedText ⟨1, 6⟩) ∧
      (Parser.ofText (Text.decode openString)).answers twoRuns =
        [.counted 0, .parsed (.error (.unterminatedText ⟨1, 6⟩)), .shown [], .parsed (.ok ()),
          .shown [], .counted 0]) ∧
    Parser.answers
      { Parser.ofText (Text.decode nestedSource) with obstacle := some "closed" } twoRuns =
      [.counted 0, .parsed (.error (.unreadable "closed")), .shown [],
        .parsed (.error (.unreadable "closed")),
        .shown [], .counted 0] := by
  have hnested : (readBytes nestedSource).toOption.map List.length = some 2 := by decide +kernel
  have hunbalanced : (tokenize (Text.decode unbalancedSource)).isOk = true ∧
      (readBytes unbalancedSource).isOk = false := by
    decide +kernel
  have hopen : tokenize (Text.decode openString) = .error (.unterminatedText ⟨1, 6⟩) := by
    decide +kernel
  refine ⟨?_, ?_, ⟨hopen, (reparsing_is_stable openString twoRuns).2.2.1 _ hopen⟩,
    (reparsing_is_stable nestedSource twoRuns).2.2.2 "closed"⟩
  · cases hread : readBytes nestedSource with
    | error e => simp [hread, Except.toOption] at hnested
    | ok es =>
      have hlength : es.length = 2 := by simpa [hread, Except.toOption] using hnested
      have hanswers := (reparsing_is_stable nestedSource twoRuns).1 es hread
      exact ⟨es, rfl, by rw [hanswers, ← hlength]; rfl⟩
  · obtain ⟨us, hus⟩ := exists_of_isOk hunbalanced.1
    obtain ⟨e, he⟩ := exists_of_not_isOk hunbalanced.2
    exact ⟨us, e, hus, he, (reparsing_is_stable unbalancedSource twoRuns).2.1 us e hus he⟩

end ListLang
