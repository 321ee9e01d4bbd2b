import ListLang.Command.Report
import ListLang.Settings.Reader
import ListLang.Trace.Item

/-! The command with this library's reader and writer of YAML. -/

namespace ListLang.Command

structure Host where
  directory : String
  contents : String → Except FileError (List UInt8)
  id : String
  handle : String

namespace Host

def surroundings (host : Host) : Surroundings where
  directory := host.directory
  contents := host.contents
  decode := Settings.decode
  item := TraceRecord.yaml
  id := host.id
  handle := host.handle

def breaksDown (host : Host) (args : List String) : Bool :=
  match Flags.parse args with
  | .error _ => false
  | .ok flags =>
    match (settingsFile? host.directory flags).map host.contents with
    | some (.ok bytes) => Settings.breaksDown bytes
    | _ => false

end Host

/-- There is no report when reading the settings breaks down. -/
def execute (host : Host) (args : List String) : Option Report :=
  if host.breaksDown args then none else some (report host.surroundings args)

end ListLang.Command
