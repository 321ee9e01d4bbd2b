import ListLang.Command
import ListLang.RunId

/-! The command line: reads the files that the command asks for, and prints its report. -/

namespace ListLang.Main

def readFile (path : String) : IO (Except Command.FileError (List UInt8)) := do
  try
    return .ok (← IO.FS.readBinFile path).toList
  catch
    | .noFileOrDirectory .. => return .error .notFound
    | .inappropriateType none .. => return .error .isDirectory
    | .inappropriateType (some _) .. => return .error .notDirectory
    | .invalidArgument _ code _ => return .error (if code = 22 then .invalidPath else .nameTooLong)
    | e => return .error (.other (toString e))

/-- Files that were read. -/
abbrev Known := List (String × Except Command.FileError (List UInt8))

def lookup (known : Known) (path : String) : Except Command.FileError (List UInt8) :=
  (known.lookup path).getD (.error .notFound)

/-- The settings file, if the arguments name one. -/
def configPath? (directory : String) (args : List String) : Option String :=
  match Flags.parse args with
  | .ok flags => Command.settingsFile? directory flags
  | .error _ => none

def run (args : List String) : IO UInt32 := do
  let directory := (← IO.currentDir).toString
  let bytes ← (List.range 16).mapM fun _ => return (← IO.rand 0 255).toUInt8
  let host (known : Known) : Command.Host := ⟨directory, lookup known, RunId.ofBytes bytes, "0x1"⟩
  let mut known : Known := []
  if let some path := configPath? directory args then
    known := (path, ← readFile path) :: known
  if let .ok settings := Command.configure (host known).surroundings args then
    if settings.source ≠ "" then
      known := (settings.source, ← readFile settings.source) :: known
  match Command.execute (host known) args with
  | none =>
    (← IO.getStderr).putStr "steed: settings cannot be read\n"
    return 2
  | some report =>
    (← IO.getStdout).putStr report.stdout
    (← IO.getStderr).putStr report.stderr
    return report.code.toUInt32

end ListLang.Main

def main (args : List String) : IO UInt32 := ListLang.Main.run args
