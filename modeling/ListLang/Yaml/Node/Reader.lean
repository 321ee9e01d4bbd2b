import ListLang.Yaml.Node
import ListLang.Yaml.Token.Stream

/-! Reading the first document of a YAML text: its tokens make one node. -/

namespace ListLang.Yaml

structure NodeReader where
  stream : TokenStream
  /-- The nodes with an anchor so far, and whether they are whole. -/
  anchors : List (String × Bool × Node)
  handles : List (String × String)

abbrev Nodes := StateT NodeReader (Except Problem)

namespace Nodes

def tokens {α : Type} (x : Tokens α) : Nodes α := do
  let (a, t) ← x.run (← get).stream
  modify fun r => { r with stream := t }
  return a

def peek : Nodes Token := tokens Tokens.peek

def drop : Nodes Unit := tokens Tokens.drop

def fail {α : Type} (began : Position) (fault : Fault) (token : Token) : Nodes α :=
  throw ⟨fault, false, began.line, token.start.line⟩

def failAt {α : Type} (fault : Fault) (token : Token) : Nodes α :=
  throw ⟨fault, false, 0, token.start.line⟩

/-- A character that is not allowed counts here when it was met while looking for a comment. -/
def settle : Nodes Unit := do
  if (← get).stream.cursor.isSpoilt then throw (.plain .controlCharacter)

def absent (p : Position) : Nodes Node := do
  settle
  return .absent (p.line + 1)

def close {α : Type} : Nodes (List α) := do
  drop
  settle
  return []

/-! Anchors and tags -/

def anchored (name : Option String) (whole : Bool) (node : Node) : Nodes Unit := do
  if let some name :=
    name then modify fun r => { r with anchors := (name, whole, node) :: r.anchors }

def expandTag (began : Position) (token : Token) (handle text : String) : Nodes String := do
  if handle = "" then return text
  match (← get).handles.lookup handle with
  | none => fail began .undefinedHandle token
  | some expansion =>
    if expansion ++ text = "" then fail began .undefinedHandle token
    else return expansion ++ text

structure Properties where
  start : Position
  anchor : Option String
  tag : Option (Token × String × String)

/-- An anchor and a tag, in any order; both may be absent. -/
def readProperties : Nodes Properties := do
  let first ← peek
  match first.kind with
  | .anchor name =>
    drop
    let second ← peek
    match second.kind with
    | .tag handle text =>
      drop
      return ⟨first.start, some name, some (second, handle, text)⟩
    | _ => return ⟨first.start, some name, none⟩
  | .tag handle text =>
    drop
    match (← peek).kind with
    | .anchor name =>
      drop
      return ⟨first.start, some name, some (first, handle, text)⟩
    | _ => return ⟨first.start, none, some (first, handle, text)⟩
  | _ => return ⟨first.start, none, none⟩

def referenced (line : Nat) (name : String) : Nodes Node := do
  match (← get).anchors.lookup name with
  | none => throw (.plain (.unknownAnchor name))
  | some (whole, target) => return .reference line name whole target

/-! Nodes -/

mutual

/-- A node. In flow style it holds no blocks; the items of a block sequence may start at the column
of the mapping around it when `isLoose`. -/
def readNode (fuel : Nat) (inBlock isLoose : Bool) : Nodes Node := do
  let token ← peek
  match fuel, token.kind with
  | _, .reference name =>
    drop
    settle
    referenced (token.start.line + 1) name
  | 0, _ => fail token.start .nodeContent token
  | fuel + 1, _ =>
    let props ← readProperties
    let token ← peek
    let tag ← match props.tag with
      | none => pure ""
      | some (tagToken, handle, text) => expandTag props.start tagToken handle text
    let line := props.start.line + 1
    let sequence (items : Nodes (List Node)) : Nodes Node := do
      settle
      let node := Node.sequence line (collectionTag tag sequenceTag)
      anchored props.anchor false (node [])
      let node := node (← items)
      anchored props.anchor true node
      return node
    let mapping (entries : Nodes (List (Node × Node))) : Nodes Node := do
      settle
      let node := Node.mapping line (collectionTag tag mappingTag)
      anchored props.anchor false (node [])
      let node := node (← entries)
      anchored props.anchor true node
      return node
    match token.kind, inBlock, isLoose with
    | .blockEntry, _, true => sequence (looseItems fuel)
    | .scalar isPlain text, _, _ =>
      drop
      settle
      let node := Node.scalar line (scalarTag tag isPlain text) text
      anchored props.anchor true node
      return node
    | .flowSequence, _, _ =>
      sequence do
        drop
        flowItems fuel token.start true
    | .flowMapping, _, _ =>
      mapping do
        drop
        flowEntries fuel token.start true
    | .blockSequence, true, _ =>
      sequence do
        drop
        blockItems fuel token.start
    | .blockMapping, true, _ =>
      mapping do
        drop
        blockEntries fuel token.start
    | _, _, _ =>
      if props.anchor.isSome || tag ≠ "" then
        settle
        let node := Node.scalar line (scalarTag tag true "") ""
        anchored props.anchor true node
        return node
      else fail props.start .nodeContent token

def blockItems (fuel : Nat) (began : Position) : Nodes (List Node) := do
  let token ← peek
  match fuel, token.kind with
  | fuel + 1, .blockEntry =>
    drop
    let item ← match (← peek).kind with
      | .blockEntry | .blockEnd => absent token.start
      | _ => readNode fuel true false
    return item :: (← blockItems fuel began)
  | _, .blockEnd =>
    close
  | _, _ => fail began .blockItem token

/-- The items of a sequence that no token ends. -/
def looseItems (fuel : Nat) : Nodes (List Node) := do
  let token ← peek
  match fuel, token.kind with
  | fuel + 1, .blockEntry =>
    drop
    let item ← match (← peek).kind with
      | .blockEntry | .key | .value | .blockEnd => absent token.start
      | _ => readNode fuel true false
    return item :: (← looseItems fuel)
  | _, _ =>
    settle
    return []

def blockEntries (fuel : Nat) (began : Position) : Nodes (List (Node × Node)) := do
  let token ← peek
  match fuel, token.kind with
  | fuel + 1, .key =>
    drop
    let key ← match (← peek).kind with
      | .key | .value | .blockEnd => absent token.start
      | _ => readNode fuel true true
    let mark ← peek
    let value ← match mark.kind with
      | .value => do
        drop
        match (← peek).kind with
        | .key | .value | .blockEnd => absent mark.start
        | _ => readNode fuel true true
      | _ => absent mark.start
    return (key, value) :: (← blockEntries fuel began)
  | _, .blockEnd =>
    close
  | _, _ => fail began .blockKey token

def flowItems (fuel : Nat) (began : Position) (isFirst : Bool) : Nodes (List Node) := do
  let token ← peek
  match fuel, token.kind with
  | _, .flowSequenceEnd =>
    close
  | 0, _ => fail began .flowItemEnd token
  | fuel + 1, kind =>
    if !isFirst then
      if kind ≠ .flowEntry then fail began .flowItemEnd token
      drop
    let token ← peek
    match token.kind with
    | .flowSequenceEnd =>
      close
    | .key =>
      drop
      settle
      let entry ← flowPair fuel
      let item := Node.mapping (token.start.line + 1) mappingTag [entry]
      return item :: (← flowItems fuel began false)
    | _ =>
      let item ← readNode fuel false false
      return item :: (← flowItems fuel began false)

/-- The only entry of a mapping that is an item in flow style. -/
def flowPair (fuel : Nat) : Nodes (Node × Node) := do
  match fuel with
  | 0 => return (.absent 1, .absent 1)
  | fuel + 1 =>
    let first ← peek
    let key ← match first.kind with
      | .value | .flowEntry | .flowSequenceEnd => do
        drop
        absent first.start
      | _ => readNode fuel false false
    let mark ← peek
    let value ← match mark.kind with
      | .value => do
        drop
        match (← peek).kind with
        | .flowEntry | .flowSequenceEnd => absent mark.start
        | _ => readNode fuel false false
      | _ => absent mark.start
    let _ ← peek
    settle
    return (key, value)

def flowEntries (fuel : Nat) (began : Position) (isFirst : Bool) : Nodes (List (Node × Node)) := do
  let token ← peek
  match fuel, token.kind with
  | _, .flowMappingEnd =>
    close
  | 0, _ => fail began .flowEntryEnd token
  | fuel + 1, kind =>
    if !isFirst then
      if kind ≠ .flowEntry then fail began .flowEntryEnd token
      drop
    let token ← peek
    match token.kind with
    | .flowMappingEnd =>
      close
    | .key =>
      drop
      let first ← peek
      let key ← match first.kind with
        | .value | .flowEntry | .flowMappingEnd => absent first.start
        | _ => readNode fuel false false
      let value ← flowValue fuel
      return (key, value) :: (← flowEntries fuel began false)
    | _ =>
      let key ← readNode fuel false false
      let value ← absent (← peek).start
      return (key, value) :: (← flowEntries fuel began false)

def flowValue (fuel : Nat) : Nodes Node := do
  let mark ← peek
  match fuel, mark.kind with
  | fuel + 1, .value =>
    drop
    match (← peek).kind with
    | .flowEntry | .flowMappingEnd => absent mark.start
    | _ => readNode fuel false false
  | _, _ => absent mark.start

end

/-! Documents -/

def commonHandles : List (String × String) := [("!", "!"), ("!!", standardTag)]

/-- Directives up to the start of the document. -/
def readDirectives (fuel : Nat) (hasVersion : Bool) : Nodes Unit := do
  let token ← peek
  match fuel, token.kind with
  | fuel + 1, .version major minor =>
    if hasVersion then failAt .duplicateVersion token
    else if major ≠ 1 || minor ≠ 1 then failAt .incompatibleVersion token
    drop
    readDirectives fuel true
  | fuel + 1, .handle name expansion =>
    if ((← get).handles.lookup name).isSome then failAt .duplicateHandle token
    modify fun r => { r with handles := r.handles ++ [(name, expansion)] }
    drop
    readDirectives fuel hasVersion
  | _, _ => modify fun r => { r with handles := r.handles ++ commonHandles }

def readContent (fuel : Nat) : Nodes Node := do
  let token ← peek
  match token.kind with
  | .version .. | .handle .. | .documentStart | .documentEnd | .streamEnd => absent token.start
  | _ => readNode fuel true false

/-- The first document; none when the text holds no token. -/
def readDocument (fuel : Nat) : Nodes (Option Node) := do
  let _ ← peek
  drop
  settle
  match (← peek).kind with
  | .streamEnd =>
    settle
    return none
  | .version .. | .handle .. | .documentStart =>
    readDirectives fuel false
    let token ← peek
    if token.kind ≠ .documentStart then failAt .documentStart token
    drop
    settle
    let node ← readContent fuel
    endDocument node
  | _ =>
    readDirectives fuel false
    settle
    let node ← readNode fuel true false
    endDocument node
where
  endDocument (node : Node) : Nodes (Option Node) := do
    let _ ← peek
    settle
    return some node

end Nodes

/-- The first document of a text; none when there is no document. -/
def document? (text : List Char) : Except Problem (Option Node) :=
  (Nodes.readDocument (8 * text.length + 8)).run' ⟨.ofText text, [], []⟩

end ListLang.Yaml
