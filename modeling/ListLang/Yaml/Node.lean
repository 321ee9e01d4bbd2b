import ListLang.Text.Base64
import ListLang.Yaml.Scalar

/-! The nodes of a YAML document. Every node has a tag, given or implied. -/

namespace ListLang.Yaml

/-- The line of a node is counted from one. -/
inductive Node where
  | scalar (line : Nat) (tag text : String)
  | sequence (line : Nat) (tag : String) (items : List Node)
  | mapping (line : Nat) (tag : String) (entries : List (Node × Node))
  /-- Stands for the node with that anchor; within that node, whose content is not known yet, the
  target is empty and not `whole`. -/
  | reference (line : Nat) (name : String) (whole : Bool) (target : Node)

def Node.line : Node → Nat
  | scalar line .. | sequence line .. | mapping line .. | reference line .. => line

def Node.resolved : Node → Node
  | reference _ _ _ target => target
  | node => node

def standardTag : String := "tag:yaml.org,2002:"

def shortTag (tag : String) : String :=
  if standardTag.toList.isPrefixOf tag.toList then
    "!!" ++ String.ofList (tag.toList.drop standardTag.length)
  else tag

def isGiven (tag : String) : Bool := tag ≠ "" && tag ≠ "!"

/-- The mark of a mapping whose entries are added to the mapping around it. -/
def mergeKey : String := "<<"

def mergeTag : String := "!!merge"

/-- The tag of a scalar: the one given, or what the text stands for. -/
def scalarTag (tag : String) (isPlain : Bool) (text : String) : String :=
  if isGiven tag then shortTag tag
  else if !isPlain then Meaning.text.tag
  else if text = mergeKey then mergeTag
  else (meaning text).tag

def collectionTag (tag implied : String) : String := if isGiven tag then shortTag tag else implied

def sequenceTag : String := "!!seq"

def mappingTag : String := "!!map"

/-- What the text of a scalar stands for under its tag. A tag of no standard type leaves it a
text. -/
def meaningUnder (tag text : String) : Except String Meaning :=
  if ["!!null", "!!bool", "!!int", "!!float", "!!timestamp"].contains tag then
    let m := meaningAmong (tag = "!!timestamp") text
    if m.tag = tag then .ok m
    else match tag, m with
      | "!!float", .int i =>
        if inInt64 i then .ok (.float (Binary64.ofInt i)) else .error (mismatch m)
      | _, _ => .error (mismatch m)
  else .ok .text
where
  mismatch (m : Meaning) : String := "cannot decode " ++ m.tag ++ " `" ++ text ++ "` as a " ++ tag

def binaryTag : String := "!!binary"

/-- What a scalar stands for under its tag, and its bytes. They are those of its text unless the
text is another way to write them. -/
def content (tag text : String) : Except String (Meaning × List UInt8) :=
  if tag = binaryTag then
    match Text.Base64.decode? text.toList with
    | some bytes => .ok (.text, bytes)
    | none => .error "!!binary value contains invalid base64 data"
  else do return (← meaningUnder tag text, text.toUTF8.toList)

def Node.absent (line : Nat) : Node := .scalar line Meaning.null.tag ""

end ListLang.Yaml
