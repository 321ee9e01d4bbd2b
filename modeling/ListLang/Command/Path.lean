/-! File paths, by their text alone. -/

namespace ListLang.Path

/-- Drops empty and `.` components, and resolves `..` against the component before it. The
components kept so far come last one first. -/
def resolve (rooted : Bool) (kept : List String) : List String → List String
  | [] => kept.reverse
  | part :: parts =>
    if part = "" || part = "." then resolve rooted kept parts
    else if part = ".." then
      match kept with
      | [] => resolve rooted (if rooted then [] else [".."]) parts
      | p :: ps => resolve rooted (if p = ".." then ".." :: p :: ps else ps) parts
    else resolve rooted (part :: kept) parts

def isRooted (path : String) : Bool := path.toList.head? = some '/'

def clean (path : String) : String :=
  let parts := resolve (isRooted path) [] (path.splitOn "/")
  let joined := String.intercalate "/" parts
  if isRooted path then "/" ++ joined else if joined = "" then "." else joined

def absolute (directory path : String) : String :=
  if isRooted path then clean path else clean (directory ++ "/" ++ path)

end ListLang.Path
