/-!
A store of files below one directory, as a value: reading, writing and
appending by path, and the ways in which they fail. Directories are the ones
that files stand in.
-/

namespace FormTree

inductive FileError where
  | notFound
  | denied
  | notDirectory
  | isDirectory
  | nameTooLong
  /-- The path has a zero character in it, as no file's has. -/
  | zeroInPath
  | other (reason : String)
deriving DecidableEq, Repr

def FileError.message : FileError → String
  | .notFound => "No such file or directory (os error 2)"
  | .denied => "Permission denied (os error 13)"
  | .notDirectory => "Not a directory (os error 20)"
  | .isDirectory => "Is a directory (os error 21)"
  | .nameTooLong => "File name too long (os error 36)"
  | .zeroInPath => "file name contained an unexpected NUL byte"
  | .other reason => reason

/-- Files under the names that lead to them from the directory of the store. -/
structure Files where
  entries : List (List String × ByteArray)

namespace Files

def empty : Files := ⟨[]⟩

inductive Target where
  | file (content : ByteArray)
  | directory
  | vacant

/-- Whether a place is above the directory of the store, which steps up and the
root of all directories lead to, or is that directory. -/
def isAbove (place : List String) : Bool := place.all fun name => name == ".." || name == "/"

def target (f : Files) (place : List String) : Target :=
  match f.entries.lookup place with
  | some content => .file content
  | none =>
    if isAbove place || f.entries.any fun e => place.isPrefixOf e.1 then .directory else .vacant

def put (f : Files) (place : List String) (content : ByteArray) : Files :=
  let rest := f.entries.filter fun e => e.1 != place
  ⟨(place, content) :: rest⟩

def names : List Char → List Char → List String
  | name, [] => [String.ofList name.reverse]
  | name, '/' :: rest => String.ofList name.reverse :: names [] rest
  | name, c :: rest => names (c :: name) rest

def maxNameBytes : Nat := 255

def maxPathBytes : Nat := 4095

/-- Follows names from a place. Above the directory of the store there is
nothing but directories on the way up. -/
def follow (f : Files) (place : List String) : List String → Except FileError (List String)
  | [] => .ok place
  | name :: rest =>
    match f.target place with
    | .file _ => .error .notDirectory
    | .vacant => .error .notFound
    | .directory =>
      if name = "" ∨ name = "." then follow f place rest
      else if name = ".." then
        follow f (if isAbove place then place ++ [name] else place.dropLast) rest
      else if maxNameBytes < name.utf8ByteSize then .error .nameTooLong
      else if isAbove place && !place.isEmpty then .error .notFound
      else follow f (place ++ [name]) rest

/-- The names of a path, with the place that they are followed from. -/
def route (path : String) : Except FileError (List String × List String) :=
  if path.toList.contains '\x00' then .error .zeroInPath
  else if path = "" then .error .notFound
  else if maxPathBytes < path.utf8ByteSize then .error .nameTooLong
  else .ok (if path.toList.head? = some '/' then ["/"] else [], names [] path.toList)

def resolve (f : Files) (path : String) : Except FileError (List String) := do
  let (place, names) ← route path
  f.follow place names

def read (f : Files) (path : String) : Except FileError ByteArray := do
  match f.target (← f.resolve path) with
  | .file content => return content
  | .directory => throw .isDirectory
  | .vacant => throw .notFound

def contains (f : Files) (path : String) : Bool :=
  match f.resolve path with
  | .error _ => false
  | .ok place =>
    match f.target place with
    | .vacant => false
    | _ => true

/-- The names before the last one of a path that ends with a slash, unless that
one stands for a directory by itself. -/
def beforeSlash? (names : List String) : Option (List String) :=
  match names.reverse with
  | "" :: rest =>
    match rest.dropWhile String.isEmpty with
    | last :: before => if last = "." ∨ last = ".." then none else some before.reverse
    | [] => none
  | _ => none

/-- The place of a file to be written, with what it holds. A slash at the end
asks for a directory, whatever stands there. -/
def writable (f : Files) (path : String) : Except FileError (List String × ByteArray) := do
  let (start, names) ← route path
  if let some before := beforeSlash? names then
    let _ ← f.follow start (before ++ ["."])
    throw .isDirectory
  let place ← f.follow start names
  match f.target place with
  | .file content => return (place, content)
  | .directory => throw .isDirectory
  | .vacant => return (place, .empty)

/-- Writes a file, which is made if it is not there. -/
def write (f : Files) (path : String) (content : ByteArray) : Except FileError Files := do
  let (place, _) ← f.writable path
  return f.put place content

/-- Adds to the end of a file, which is made if it is not there. -/
def append (f : Files) (path : String) (content : ByteArray) : Except FileError Files := do
  let (place, before) ← f.writable path
  return f.put place (before ++ content)

end Files
end FormTree
