/-! Files held in memory, and how a path leads to one of them. -/

namespace ListLang.Command

inductive FileError where
  | notFound
  | notDirectory
  | isDirectory
  | nameTooLong
  | invalidPath
  | other (reason : String)

def FileError.message (path : String) : FileError → String
  | .notFound => "open " ++ path ++ ": no such file or directory"
  | .notDirectory => "open " ++ path ++ ": not a directory"
  | .isDirectory => "read " ++ path ++ ": is a directory"
  | .nameTooLong => "open " ++ path ++ ": file name too long"
  | .invalidPath => "open " ++ path ++ ": invalid argument"
  | .other reason => "open " ++ path ++ ": " ++ reason

/-- Files by their place, which is a list of names from the root. There are no directories but those
on the way to a file or to the directory where paths start. -/
structure Folder where
  home : List String
  files : List (List String × List UInt8)

namespace Folder

inductive Entry where
  | directory
  | file (content : List UInt8)

def entry? (folder : Folder) (place : List String) : Option Entry :=
  match folder.files.lookup place with
  | some content => some (.file content)
  | none =>
    if (folder.home :: folder.files.map Prod.fst).any place.isPrefixOf then some .directory
      else none

def longestName : Nat := 255

def longestPath : Nat := 4095

/-- Follows names from a place that has to exist. -/
def follow (folder : Folder) (place : List String) : List String → Except FileError (List UInt8)
  | [] =>
    match folder.entry? place with
    | none => .error .notFound
    | some .directory => .error .isDirectory
    | some (.file content) => .ok content
  | name :: names =>
    match folder.entry? place with
    | none => .error .notFound
    | some (.file _) => .error .notDirectory
    | some .directory =>
      if name = "" || name = "." then folder.follow place names
      else if name = ".." then folder.follow place.dropLast names
      else if longestName < name.utf8ByteSize then .error .nameTooLong
      else folder.follow (place ++ [name]) names

def content (folder : Folder) (path : String) : Except FileError (List UInt8) :=
  if path.toList.contains (Char.ofNat 0) then .error .invalidPath
  else if longestPath < path.utf8ByteSize then .error .nameTooLong
  else if path = "" then .error .notFound
  else folder.follow (if path.toList.head? = some '/' then [] else folder.home) (path.splitOn "/")

end Folder

end ListLang.Command
