/-!
Paths as texts with slashes: their last name, its stem and extension, and the directory around them.
Empty parts and the part `.` mean nothing, except a `.` in front.
-/

namespace Jack.Path

def splitSlash : List Char → List (List Char)
  | [] => [[]]
  | c :: cs =>
    if c = '/' then [] :: splitSlash cs
    else
      match splitSlash cs with
      | [] => [[c]]
      | part :: parts => (c :: part) :: parts

/-- What stands between the slashes. -/
def parts (path : String) : List String := (splitSlash path.toList).map String.ofList

def isIdle (part : String) : Bool := part = "" || part = "."

/-- The parts without idle ones at the end. -/
def trim : List String → List String
  | [] => []
  | first :: rest => first :: (rest.reverse.dropWhile isIdle).reverse

def ofParts : List String → String
  | [""] => "/"
  | parts => String.intercalate "/" parts

/-- The path without its last part, unless it is empty or the root. -/
def parent? (path : String) : Option String :=
  match trim (parts path) with
  | [] => none
  | [first] => if first = "" then none else some ""
  | parts => some (ofParts (trim parts.dropLast))

/-- The last part, if it is a name. -/
def fileName? (path : String) : Option String :=
  match (trim (parts path)).getLast? with
  | some name => if isIdle name || name = ".." then none else some name
  | none => none

/-- A file name before and behind its last dot. A name has no extension without a dot or with a dot
only in front. -/
def splitName (name : String) : String × Option String :=
  let reversed := name.toList.reverse
  match reversed.dropWhile (· ≠ '.') with
  | [] | [_] => (name, none)
  | _ :: stem =>
    (String.ofList stem.reverse, some (String.ofList (reversed.takeWhile (· ≠ '.')).reverse))

def extension? (path : String) : Option String :=
  (fileName? path).bind fun name => (splitName name).2

def stem (path : String) : String :=
  ((fileName? path).map fun name => (splitName name).1).getD ""

def join (dir name : String) : String :=
  if dir = "" then name
  else if dir.endsWith "/" then dir ++ name
  else dir ++ "/" ++ name

/-- The path, its parent, the parent of that, and so on, `n` more at most. -/
def ancestorsFrom : Nat → String → List String
  | 0, path => [path]
  | n + 1, path =>
    path :: match parent? path with
      | some parent => ancestorsFrom n parent
      | none => []

/-- A parent has fewer parts, so the number of parts bounds the number of ancestors. -/
def ancestors (path : String) : List String := ancestorsFrom (parts path).length path

end Jack.Path
