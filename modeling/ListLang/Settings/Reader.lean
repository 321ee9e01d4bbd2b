import ListLang.Settings
import ListLang.Yaml.Encoding
import ListLang.Yaml.Node.Reader

/-! How a YAML document changes the settings. Every problem of the document is collected; one is
enough to refuse it. -/

namespace ListLang.Settings

inductive Failure where
  | told (problem : String)
  /-- Reading breaks down and nothing can be told. -/
  | breakdown
  deriving DecidableEq

def Failure.message : Failure → String
  | told problem => problem
  | breakdown => "yaml: the settings cannot be read"

def telling {α : Type} (x : Except String α) : Except Failure α := x.mapError .told

inductive Field where
  | source
  | trace
  | maxDepth
  | debug

def Field.ofName? : String → Option Field
  | "source" => some .source
  | "trace" => some .trace
  | "max_depth" => some .maxDepth
  | "debug" => some .debug
  | _ => none

def Field.typeName : Field → String
  | .source | .trace => "string"
  | .maxDepth => "int"
  | .debug => "bool"

def typeName : String := "main.Config"

def atLine (line : Nat) (problem : String) : String := "line " ++ natText line ++ ": " ++ problem

/-- A long text is shown by its first seven bytes. -/
def shorten (s : String) : String :=
  let bytes := s.toUTF8.toList
  if bytes.length ≤ 10 then s else Text.decodeString (bytes.take 7) ++ "..."

/-! Complaints -/

/-- Two keys of one kind with the same text. Collections have no text. -/
def isSameKey : Yaml.Node → Yaml.Node → Bool
  | .scalar _ _ a, .scalar _ _ b => a = b
  | .reference _ a _ _, .reference _ b _ _ => a = b
  | .sequence .., .sequence .. => true
  | .mapping .., .mapping .. => true
  | _, _ => false

def keyText : Yaml.Node → String
  | .scalar _ _ text => text
  | .reference _ name _ _ => name
  | _ => ""

def repeatedKeys : List (Yaml.Node × Yaml.Node) → List String
  | [] => []
  | (k, _) :: rest =>
    (rest.filter fun (l, _) => isSameKey k l).map (fun (l, _) =>
      atLine l.line
        ("mapping key " ++ Text.quote (keyText l) ++ " already defined at line " ++
          natText k.line)) ++
    repeatedKeys rest

/-- The complaint about a node that does not fit the wanted type. Its text is shown, set off unless
the tag is that of a collection. -/
def misfit (node : Yaml.Node) (wanted : String) : List String :=
  let complaint (line : Nat) (tag text : String) : String :=
    let isCollection := tag = Yaml.sequenceTag || tag = Yaml.mappingTag
    let shown := if isCollection then text else " `" ++ shorten text ++ "`"
    atLine line ("cannot unmarshal " ++ tag ++ shown ++ " into " ++ wanted)
  match node with
  | .scalar line tag text => [complaint line tag text]
  | .sequence line tag _ => [complaint line tag ""]
  | .mapping line tag entries =>
    match repeatedKeys entries with
    | [] => [complaint line tag ""]
    | problems => problems
  | .reference .. => []

/-! Values -/

/-- The whole part of a double that is not above 2^63; what lies outside 64 bits becomes their
least. -/
def wholePart? (x : Float) : Option Int :=
  let least : Int := -9223372036854775808
  match Binary64.magnitude x with
  | .nan => none
  | .infinite => if Binary64.isNegative x then some least else none
  | .finite m q =>
    let (num, den) := Binary64.scale m 1 (-q)
    let whole : Nat := num / den
    if Binary64.isNegative x then some (max (-(whole : Int)) least)
    else if whole < pow2 63 then some whole
    else if whole = pow2 63 && num % den = 0 then some least
    else none

def depth? : Yaml.Meaning → Option Int
  | .int i => if inInt64 i then some i else none
  | .float x => wholePart? x
  | _ => none

def truth? (m : Yaml.Meaning) (text : String) : Option Bool :=
  match m with
  | .bool b => some b
  | .text =>
    if ["y", "Y", "yes", "Yes", "YES", "on", "On", "ON"].contains text then some true
    else if ["n", "N", "no", "No", "NO", "off", "Off", "OFF"].contains text then some false
    else none
  | _ => none

/-- Sets one field. Null leaves it as it is. -/
def set (s : Settings) (f : Field) (value : Yaml.Node) : Except String (Settings × List String) :=
  match value.resolved with
  | .scalar line tag text => do
    let (m, bytes) ← Yaml.content tag text
    let refused := (s, misfit (.scalar line tag text) f.typeName)
    match f, m with
    | _, .null => return (s, [])
    | .source, _ => return ({ s with source := Text.decodeString bytes }, [])
    | .trace, _ => return ({ s with trace := .ofBytes bytes }, [])
    | .maxDepth, m => return ((depth? m).map fun d => ({ s with maxDepth := d }, [])).getD refused
    | .debug, m =>
      return ((truth? m (Text.decodeString bytes)).map fun b => ({ s with debug := b },
        [])).getD refused
  | node => .ok (s, misfit node f.typeName)

/-! Mappings -/

structure Draft where
  settings : Settings
  problems : List String
  /-- The names that a merged mapping cannot set. -/
  taken : List String
  /-- How many nodes were looked at, and how many of them through a reference. -/
  looks : Nat
  expanded : Nat

namespace Draft

def complain (d : Draft) (problems : List String) : Draft :=
  { d with problems := d.problems ++ problems }

/-- Whether references are used so much that the document cannot be meant well: they may make up 99
of 100 looks, and fewer when there are more than 400000 looks, down to 10 of 100. -/
def isExcessive (looks expanded : Nat) : Bool :=
  1000 < looks && 100 < expanded &&
    if looks ≤ 400000 then 99 * looks < 100 * expanded
    else if looks < 4000000 then
      looks * (99 * 3600000 - 89 * (looks - 400000)) < 100 * expanded * 3600000
    else looks < 10 * expanded

def count (d : Draft) (inReference : Bool) : Except Failure Draft :=
  let d := { d with
    looks := d.looks + 1
    expanded := if inReference then d.expanded + 1 else d.expanded }
  if isExcessive d.looks d.expanded then .error (.told "document contains excessive aliasing")
    else .ok d

def look (d : Draft) (inReference : Bool) (node : Yaml.Node) : Except Failure Draft :=
  match node with
  | .reference .. => do (← d.count inReference).count true
  | _ => d.count inReference

/-- The name that a key stands for; null names nothing. -/
def name? (key : Yaml.Node) : Except String (Option String × List String) :=
  match key.resolved with
  | .scalar _ tag text => do
    match ← Yaml.content tag text with
    | (.null, _) => return (none, [])
    | (_, bytes) => return (some (Text.decodeString bytes), [])
  | node => .ok (none, misfit node "string")

def isMerge : Yaml.Node → Bool
  | .scalar _ tag text => text = Yaml.mergeKey && tag = Yaml.mergeTag
  | _ => false

def add (merging inReference : Bool) (done : List String) (d : Draft) (key value : Yaml.Node) :
    Except Failure (Draft × List String) := do
  let d ← d.look inReference key
  let (name, problems) ← telling (name? key)
  let d := d.complain problems
  match name with
  | none => return (d, done)
  | some name =>
    if merging && d.taken.contains name then return (d, done)
    let d := if merging then { d with taken := name :: d.taken } else d
    let refuse (reason : String) : Draft × List String :=
      (d.complain [atLine key.line ("field " ++ name ++ reason ++ typeName)], done)
    match Field.ofName? name with
    | none => return refuse " not found in type "
    | some f =>
      if done.contains name then return refuse " already set in type "
      let d ← d.look inReference value
      let (s, problems) ← telling (d.settings.set f value)
      return ({ d with settings := s }.complain problems, name :: done)

def addAll (merging inReference : Bool) (done : List String) (d : Draft) :
    List (Yaml.Node × Yaml.Node) → Except Failure Draft
  | [] => .ok d
  | (key, value) :: rest =>
    if isMerge key then addAll merging inReference done d rest
    else do
      let (d, done) ← d.add merging inReference done key value
      addAll merging inReference done d rest

def containsItself (name : String) : Failure :=
  .told ("anchor '" ++ name ++ "' value contains itself")

/-- Takes the names of a mapping, so that one merged into it cannot set them. A collection is no
name, and reading breaks down at it. -/
def takeNames (d : Draft) : List (Yaml.Node × Yaml.Node) → Except Failure Draft
  | [] => .ok d
  | (key, _) :: rest => do
    let d ← d.look false key
    match key, key.resolved with
    | .reference _ name false _, _ => throw (containsItself name)
    | _, .scalar _ tag text =>
      match ← telling (Yaml.content tag text) with
      | (.text, bytes) => takeNames { d with taken := Text.decodeString bytes :: d.taken } rest
      | _ => takeNames d rest
    | _, .mapping _ _ entries =>
      match repeatedKeys entries with
      | [] => throw .breakdown
      | problems => takeNames (d.complain problems) rest
    | _, _ => throw .breakdown

def needsMapping : String := "map merge requires map or sequence of maps as the value"

mutual

/-- Adds the entries of a mapping, and last those of a mapping merged into it. -/
def addMapping (fuel : Nat) (merging inReference : Bool) (d : Draft)
    (entries : List (Yaml.Node × Yaml.Node)) : Except Failure Draft :=
  match fuel, repeatedKeys entries with
  | 0, _ => .ok d
  | fuel + 1, [] => do
    let d ← d.addAll merging inReference [] entries
    match (entries.filter fun (key, _) => isMerge key).getLast? with
    | none => return d
    | some (_, source) =>
      let d ← if merging then pure d else takeNames { d with taken := [] } entries
      match source with
      | .sequence _ _ items => addMerged fuel inReference d items
      | node => addMerged fuel inReference d [node]
  | _ + 1, problems => .ok (d.complain problems)

def addMerged (fuel : Nat) (inReference : Bool) (d : Draft) (sources : List Yaml.Node) :
    Except Failure Draft :=
  match fuel, sources with
  | 0, _ | _, [] => .ok d
  | fuel + 1, source :: rest =>
    match source with
    | .mapping _ _ entries => do
      let d ← d.look inReference source
      addMerged fuel inReference (← addMapping fuel true inReference d entries) rest
    | .reference _ name whole (.mapping _ _ entries) => do
      let d ← d.look inReference source
      if !whole then throw (containsItself name)
      addMerged fuel inReference (← addMapping fuel true true d entries) rest
    | _ => .error (.told needsMapping)

end

end Draft

def ofNode (base : Settings) (fuel : Nat) (node : Yaml.Node) :
    Except Failure (Settings × List String) := do
  let d ← Draft.look ⟨base, [], [], 1, 0⟩ false node
  match node.resolved with
  | .mapping _ _ entries =>
    let d ← Draft.addMapping fuel false false d entries
    return (d.settings, d.problems)
  | .scalar line tag text =>
    match ← telling (Yaml.content tag text) with
    | (.null, _) => return (base, [])
    | _ => return (base, misfit (.scalar line tag text) typeName)
  | other => return (base, misfit other typeName)

/-- The settings that a document makes of others, or what is wrong with it. -/
def decodeOver (base : Settings) (text : List Char) : Except Failure Settings :=
  match Yaml.document? text with
  | .error p => .error (.told ("yaml: " ++ p.message))
  | .ok none => .error (.told "EOF")
  | .ok (some node) =>
    match ofNode base (text.length + 2) node with
    | .error (.told problem) => .error (.told ("yaml: " ++ problem))
    | .error .breakdown => .error .breakdown
    | .ok (s, []) => .ok s
    | .ok (_, problems) =>
      .error (.told ("yaml: unmarshal errors:\n  " ++ String.intercalate "\n  " problems))

def decodeBytes (base : Settings) (bytes : List UInt8) : Except Failure Settings :=
  match Yaml.decode bytes with
  | .error fault => .error (.told ("yaml: " ++ fault.text))
  | .ok text => decodeOver base text

def breaksDown (bytes : List UInt8) : Bool :=
  match decodeBytes default bytes with
  | .error .breakdown => true
  | _ => false

/-- The same, where a breakdown is told like any other failure. -/
def decode (base : Settings) (bytes : List UInt8) : Except String Settings :=
  match decodeBytes base bytes with
  | .ok s => .ok s
  | .error failure => .error failure.message

end ListLang.Settings
