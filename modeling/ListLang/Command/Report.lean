import ListLang.Command.Flags
import ListLang.Command.Folder
import ListLang.Command.Path
import ListLang.Evaluator
import ListLang.Settings
import ListLang.Trace.Render

/-! The command: it reads flags and settings, runs a program with them, and reports what it wrote
and how it ended. -/

namespace ListLang.Command

/-- What the command is given besides its arguments. Files, and the reader and the writer of YAML,
are functions of which nothing is known here. -/
structure Surroundings where
  directory : String
  contents : String → Except FileError (List UInt8)
  /-- The settings that a document makes of others, or what is wrong with it. -/
  decode : Settings → List UInt8 → Except String Settings
  /-- A record as an item of a YAML sequence, with the name of the run. -/
  item : String → TraceRecord → String
  id : String
  handle : String

structure Report where
  code : Nat
  stdout : String
  stderr : String
  deriving DecidableEq

def lead : String := "steed: "

def usage : String :=
  "Usage of steed:\n" ++
  "  -config string\n    \tpath to a YAML config file\n" ++
  "  -debug\n    \tlog definitions and calls\n" ++
  "  -f string\n    \tsource file, the embedded sample program is used if empty\n" ++
  "  -trace string\n    \ttrace format: text, yaml or none\n"

def sample : String :=
  "(def hello-world ()\n (- (* 2 5) 5)\n (+ 3 3)\n)\n(+ 1 23)\n(hello-world)\n"

def settingsFile? (directory : String) (flags : Flags) : Option String :=
  if flags.config.getD "" = "" then none else some (Path.absolute directory (flags.config.getD ""))

def loadSettings (w : Surroundings) (flags : Flags) : Except String Settings :=
  match settingsFile? w.directory flags with
  | none => .ok .default
  | some path =>
    match w.contents path with
    | .error .isDirectory =>
      .error ("config: parse " ++ path ++ ": yaml: input error: " ++
        FileError.isDirectory.message path)
    | .error e => .error (e.message path)
    | .ok bytes =>
      match w.decode .default bytes with
      | .error problem => .error ("config: parse " ++ path ++ ": " ++ problem)
      | .ok s =>
        match s.fault? with
        | some fault => .error fault
        | none => .ok s

/-- Flags win over the settings of the file, except that an empty text or a false switch changes
nothing. -/
def merge (s : Settings) (flags : Flags) : Settings where
  source := if flags.source.getD "" = "" then s.source else flags.source.getD ""
  trace := if flags.trace.getD "" = "" then s.trace else .ofText (flags.trace.getD "")
  maxDepth := s.maxDepth
  debug := flags.debug.getD false || s.debug

def configure (w : Surroundings) (args : List String) : Except String Settings :=
  match Flags.parse args with
  | .error e => .error (((e.message?).map (· ++ "\n")).getD "" ++ usage)
  | .ok flags =>
    match loadSettings w flags with
    | .error problem => .error (lead ++ problem ++ "\n")
    | .ok s =>
      match (merge s flags).fault? with
      | some fault => .error (lead ++ fault ++ "\n")
      | none => .ok (merge s flags)

def readSource (w : Surroundings) (s : Settings) : Except String (List Char) :=
  if s.source = "" then .ok sample.toList
  else match w.contents s.source with
    | .error e => .error (lead ++ e.message s.source ++ "\n")
    | .ok bytes => .ok (Text.decode bytes)

def context (w : Surroundings) (s : Settings) : Context :=
  { Context.plain w.id w.handle with
    limit := s.maxDepth.toNat
    tracer := s.trace.format?.map fun format => ⟨format, none⟩
    journaling := s.debug }

def failureText : RunError → String
  | .read (.invalidContent ts) =>
    "SyntaxError: Found invalid content [" ++
      String.intercalate " " (ts.map fun t => Text.quote t.text) ++ "]\n"
  | e => e.message ++ "\n"

def traceText (w : Surroundings) (ctx : Context) (s : Session) : String :=
  match ctx.tracer with
  | none => ""
  | some t => renderTraceBy w.item t.format ctx.id s.trace.toList

def journalText (ctx : Context) (s : Session) : String :=
  String.join (s.journal.toList.map (JournalEntry.line lead ctx.id ctx.handle))

/-- Runs a program with settings. Code 1 reports a program that cannot be read or that failed. -/
def runWith (w : Surroundings) (settings : Settings) : Report :=
  match readSource w settings with
  | .error text => ⟨1, "", text⟩
  | .ok text =>
    let ctx := context w settings
    let out := run ctx text
    let stdout := traceText w ctx out.session
    let log := journalText ctx out.session
    match out.result with
    | .ok _ => ⟨0, stdout, log⟩
    | .error e => ⟨1, stdout, log ++ failureText e⟩

/-- Code 2 refuses the arguments or the settings. -/
def report (w : Surroundings) (args : List String) : Report :=
  match configure w args with
  | .error text => ⟨2, "", text⟩
  | .ok settings => runWith w settings

end ListLang.Command
