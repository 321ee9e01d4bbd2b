import ListLang.Yaml.Token.Scalar

/-! Passing the comments of a YAML text. Whether one follows shows only some way ahead. -/

namespace ListLang.Yaml.Scan

def commentReach : Nat := 512

/-- Like `need`, but a character that is not allowed does not count before more of the text was
read. -/
def lookAhead (n : Nat) : Scan Bool := do
  let found ← modifyGet (Cursor.look n)
  if !found then modify fun c => { c with isSpoilt := true }
  return found

/-- Whether a comment follows after characters that satisfy a condition, `seen` of which came before
`cs`. Bytes are counted: the first one of a longer line break belongs to the gap, the second does
not. -/
def isCommentAhead (p : Char → Bool) : Nat → Nat → List Char → Scan Bool
  | 0, _, _ => return false
  | reach + 1, seen, cs => do
    if !(← lookAhead (seen + 1)) then return false
    match cs with
    | [] => return false
    | c :: cs =>
      if p c then isCommentAhead p reach (seen + 1) (if c.utf8Size = 1 then cs else [])
      else return c = '#'

def skipLineComment : Scan Unit := do
  let c ← get
  if !c.onFreshLine then
    if ← isCommentAhead isBlank commentReach 0 c.rest then
      let _ ← span isBlank
      skipLine

/-- A comment, and the comments that follow it with nothing but gaps between them. -/
def skipComments (fuel : Nat) : Scan Unit := do
  skipLine
  match fuel with
  | 0 => return
  | fuel + 1 =>
    let c ← get
    let next := match c.rest with
      | [] => []
      | b :: cs => if b.utf8Size = 1 then cs else []
    if ← isCommentAhead isGap (commentReach - 1) 1 next then
      let _ ← readGap (pure ()) (c.rest.takeWhile isGap).length .none
      skipComments fuel

end ListLang.Yaml.Scan
