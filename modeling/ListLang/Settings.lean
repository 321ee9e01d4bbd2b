import ListLang.Session
import ListLang.Text.Quoted

/-! The settings of the command. -/

namespace ListLang

inductive TraceChoice where
  /-- It is not written at all without a format. -/
  | format (f : Option TraceFormat)
  /-- A word that names no format, in quotes. -/
  | unknown (quoted : String)
  deriving DecidableEq

namespace TraceChoice

def ofBytes (bytes : List UInt8) : TraceChoice :=
  match Text.decodeString bytes with
  | "text" => .format (some .text)
  | "yaml" => .format (some .yaml)
  | "none" => .format none
  | _ => .unknown (Text.quoteBytes bytes)

def ofText (s : String) : TraceChoice := ofBytes s.toUTF8.toList

def format? : TraceChoice → Option TraceFormat
  | format f => f
  | unknown _ => none

end TraceChoice

structure Settings where
  /-- The file to run; empty for the sample program. -/
  source : String
  trace : TraceChoice
  maxDepth : Int
  debug : Bool
  deriving DecidableEq

namespace Settings

def default : Settings := ⟨"", .format (some .text), defaultLimit, false⟩

def fault? (s : Settings) : Option String :=
  match s.trace with
  | .unknown quoted => some ("config: unknown trace format " ++ quoted)
  | .format _ => if s.maxDepth < 0 then some "config: max_depth must not be negative" else none

end Settings

end ListLang
