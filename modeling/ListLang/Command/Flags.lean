import ListLang.Text.Quoted

/-! The flags of the command. A flag starts with one or two dashes; its value follows an equals sign
or is the next argument, and a switch takes a value only after an equals sign. -/

namespace ListLang

structure Flags where
  config : Option String
  source : Option String
  trace : Option String
  debug : Option Bool
  deriving DecidableEq

inductive FlagError where
  | help
  | undefined (name : String)
  | needsArgument (name : String)
  | invalidBoolean (value name : String)
  | malformed (arg : String)
  deriving DecidableEq

/-- Help has no message of its own. -/
def FlagError.message? : FlagError → Option String
  | .help => none
  | .undefined name => some ("flag provided but not defined: -" ++ name)
  | .needsArgument name => some ("flag needs an argument: -" ++ name)
  | .invalidBoolean value name =>
    some ("invalid boolean value " ++ Text.quote value ++ " for -" ++ name ++ ": parse error")
  | .malformed arg => some ("bad flag syntax: " ++ arg)

namespace Flags

def none : Flags := ⟨.none, .none, .none, .none⟩

inductive Argument where
  /-- The flags end before this argument, or with it. -/
  | stop
  | malformed
  | flag (name : String) (value : Option String)

/-- A name up to its equals sign, which cannot be its first character, and the value after it. -/
def splitValue (name : List Char) : Argument :=
  let key := name.take 1 ++ (name.drop 1).takeWhile (· ≠ '=')
  match (name.drop 1).dropWhile (· ≠ '=') with
  | [] => .flag (String.ofList key) .none
  | _ :: value => .flag (String.ofList key) (some (String.ofList value))

def classify (arg : String) : Argument :=
  match arg.toList with
  | ['-', '-'] => .stop
  | '-' :: c :: rest =>
    let name := if c = '-' then rest else c :: rest
    if name.isEmpty || name.head? = some '-' || name.head? = some '=' then .malformed
    else splitValue name
  | _ => .stop

def truth? (s : String) : Option Bool :=
  if ["1", "t", "T", "TRUE", "true", "True"].contains s then some true
  else if ["0", "f", "F", "FALSE", "false", "False"].contains s then some false
  else .none

def setText? (flags : Flags) (name value : String) : Option Flags :=
  match name with
  | "config" => some { flags with config := some value }
  | "f" => some { flags with source := some value }
  | "trace" => some { flags with trace := some value }
  | _ => .none

def isText (name : String) : Bool := name = "config" || name = "f" || name = "trace"

def parseFrom (flags : Flags) : List String → Except FlagError Flags
  | [] => .ok flags
  | arg :: rest =>
    match classify arg with
    | .stop => .ok flags
    | .malformed => .error (.malformed arg)
    | .flag "debug" .none => parseFrom { flags with debug := some true } rest
    | .flag "debug" (some value) =>
      match truth? value with
      | some b => parseFrom { flags with debug := some b } rest
      | .none => .error (.invalidBoolean value "debug")
    | .flag name (some value) =>
      match flags.setText? name value with
      | some flags => parseFrom flags rest
      | .none => .error (if name = "help" || name = "h" then .help else .undefined name)
    | .flag name .none =>
      if isText name then
        match rest with
        | [] => .error (.needsArgument name)
        | value :: rest => parseFrom ((flags.setText? name value).getD flags) rest
      else .error (if name = "help" || name = "h" then .help else .undefined name)

def parse (args : List String) : Except FlagError Flags := parseFrom none args

end Flags

end ListLang
