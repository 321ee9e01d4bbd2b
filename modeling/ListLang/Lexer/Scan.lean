import ListLang.Lexer

/-! A lexer that reads a text character by character. It keeps what it has read of the present
piece, and goes from state to state until the text ends. It can be run again: it goes on where it
stopped, and an error stays. -/

namespace ListLang

/-- A text that is being read: how many line feeds were passed, how many characters after the last
of them, and what is left. -/
structure Feed where
  line : Nat
  column : Nat
  rest : List Char

namespace Feed

def skipFrom (line column : Nat) : List Char → Feed
  | '\n' :: cs => skipFrom (line + 1) 0 cs
  | '\r' :: '\n' :: cs => skipFrom (line + 1) 0 cs
  | cs => ⟨line, column, cs⟩

def skip (f : Feed) : Feed := skipFrom f.line f.column f.rest

def pos (f : Feed) : Position := ⟨f.line + 1, f.column + 1⟩

def peek? (f : Feed) : Option Char := f.skip.rest.head?

def next? (f : Feed) : Option (Char × Feed) :=
  match f.skip with
  | ⟨_, _, []⟩ => none
  | ⟨line, column, c :: cs⟩ => some (c, ⟨line, column + 1, cs⟩)

end Feed

structure Lexer where
  feed : Feed
  start : Position
  buffer : String
  /-- None after an error. -/
  tokens : Option (List Token)
  invalid : List Token
  failure : Option ReadError

/-- What a lexer is about to do. -/
inductive LexerState where
  | start
  | text
  | collect (kind : TokenKind) (body : Char → Bool)
  | emit (kind : TokenKind)
  | fail (e : ReadError)

/-- States that read nothing are followed by states of lower rank. -/
def LexerState.rank : LexerState → Nat
  | start => 0
  | emit _ | fail _ => 1
  | text | collect _ _ => 2

namespace Lexer

def ofText (text : List Char) : Lexer := ⟨⟨0, 0, text⟩, ⟨0, 0⟩, "", some [], [], none⟩

def skip (lx : Lexer) : Lexer := { lx with feed := lx.feed.skip }

def mark (lx : Lexer) : Lexer := { lx.skip with start := lx.feed.skip.pos }

def take (lx : Lexer) (c : Char) (after : Feed) : Lexer :=
  { lx with feed := after, buffer := lx.buffer.push c }

def emit (lx : Lexer) (kind : TokenKind) : Lexer :=
  { lx with tokens := some (lx.tokens.getD [] ++ [⟨kind, lx.buffer, lx.start⟩]), buffer := "" }

def reject (lx : Lexer) : Lexer :=
  { lx with invalid := lx.invalid ++ [⟨.invalid, lx.buffer, lx.start⟩], buffer := "" }

def discard (lx : Lexer) : Lexer := { lx with buffer := "" }

def begin (lx : Lexer) (c : Char) : LexerState × Lexer :=
  match markKind? c with
  | some kind => (.emit kind, lx)
  | none =>
    if c = '"' then (.text, lx)
    else if c.isDigit then (.collect .numeric isNumericBody, lx)
    else if c = '-' then
      (if lx.feed.peek?.map Char.isDigit = some true then .collect .numeric isNumericBody
        else .emit .minus, lx.skip)
    else if c.isAlpha then (.collect .word isWordBody, lx)
    else if c = ' ' then (.start, lx.discard)
    else (.start, lx.reject)

/-- Does what the state says. There is no further state when the text has ended. -/
def step (lx : Lexer) : LexerState → Option LexerState × Lexer
  | .start =>
    match lx.feed.next? with
    | none => (none, lx.mark)
    | some (c, after) =>
      let begun := (lx.mark.take c after).begin c
      (some begun.1, begun.2)
  | .text =>
    match lx.feed.next? with
    | none => (some (.fail (.unterminatedText lx.start)), lx.skip)
    | some (c, after) => (some (if c = '"' then .emit .text else .text), lx.take c after)
  | .collect kind body =>
    match lx.feed.next? with
    | none => (some (.emit kind), lx.skip)
    | some (c, after) =>
      if body c then (some (.collect kind body), lx.take c after) else (some (.emit kind), lx.skip)
  | .emit kind => (some .start, lx.emit kind)
  | .fail e => (none, { lx with failure := some e })

/-- How much is left to do. Characters count more than states. -/
def weight (lx : Lexer) (state : LexerState) : Nat := 3 * lx.feed.rest.length + state.rank

end Lexer

/-! Lexers come to an end. -/

section Weight

variable {f after : Feed} {lx next : Lexer} {state state' : LexerState}

theorem Feed.skipFrom_length (line column : Nat) (cs : List Char) :
    (skipFrom line column cs).rest.length ≤ cs.length := by
  fun_induction skipFrom line column cs with
  | case1 line column cs ih => exact Nat.le_succ_of_le ih
  | case2 line column cs ih => exact Nat.le_succ_of_le (Nat.le_succ_of_le ih)
  | case3 line column cs => exact Nat.le_refl _

theorem Feed.skip_length (f : Feed) : f.skip.rest.length ≤ f.rest.length := skipFrom_length ..

theorem Feed.next?_length {c : Char} (h : f.next? = some (c, after)) :
    after.rest.length < f.rest.length := by
  have hskip := f.skip_length
  unfold next? at h
  split at h
  · cases h
  · rename_i heq
    rw [heq] at hskip
    cases h
    exact hskip

theorem LexerState.rank_le (state : LexerState) : state.rank ≤ 2 := by
  cases state <;> simp [rank]

theorem Lexer.begin_length (lx : Lexer) (c : Char) :
    (lx.begin c).2.feed.rest.length ≤ lx.feed.rest.length := by
  have hskip := lx.feed.skip_length
  unfold begin
  repeat' split
  all_goals first | exact Nat.le_refl _ | exact hskip

theorem Lexer.step_weight (h : lx.step state = (some state', next)) :
    next.weight state' < lx.weight state := by
  have hskip := lx.feed.skip_length
  have hrank := state'.rank_le
  have hread : ∀ {c after}, lx.feed.next? = some (c, after) → next.feed.rest.length ≤
    after.rest.length →
      next.weight state' < lx.weight state := by
    intro c after hnext hle
    have := Feed.next?_length hnext
    unfold weight
    omega
  cases state with
  | start =>
    simp only [step] at h
    split at h
    · cases h
    · rename_i c after hnext
      cases h
      exact hread hnext ((lx.mark.take c after).begin_length c)
  | text =>
    simp only [step] at h
    split at h
    · cases h
      simp only [weight, skip, LexerState.rank]
      omega
    · rename_i c after hnext
      cases h
      exact hread hnext (Nat.le_refl _)
  | collect kind body =>
    simp only [step] at h
    split at h
    · cases h
      simp only [weight, skip, LexerState.rank]
      omega
    · rename_i c after hnext
      split at h
      · cases h
        exact hread hnext (Nat.le_refl _)
      · cases h
        simp only [weight, skip, LexerState.rank]
        omega
  | emit kind =>
    cases h
    exact Nat.lt_succ_self _
  | fail e => cases h

end Weight

namespace Lexer

def readOn (lx : Lexer) (state : LexerState) : Lexer :=
  match _h : lx.step state with
  | (none, next) => next
  | (some state', next) => next.readOn state'
termination_by lx.weight state
decreasing_by exact step_weight _h

/-- The error that is to be reported. A string that never ends comes before characters that belong
nowhere. -/
def error? (lx : Lexer) : Option ReadError :=
  match lx.failure with
  | some e => some e
  | none => if lx.invalid.isEmpty then none else some (.invalidContent lx.invalid)

/-- Answers for a text that has ended, and closes its tokens by one for the end. -/
def conclude (lx : Lexer) : Except ReadError Unit × Lexer :=
  match lx.error? with
  | some e => (.error e, { lx with tokens := none, failure := some e })
  | none => (.ok (), lx.mark.emit .endOfText)

def scan (lx : Lexer) : Except ReadError Unit × Lexer := (lx.readOn .start).conclude

end Lexer

end ListLang
