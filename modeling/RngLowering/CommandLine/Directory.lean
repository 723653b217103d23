set_option autoImplicit false

namespace RngLowering.CommandLine

/-- Why a file cannot be read or written. -/
inductive FileError where
  | notFound
  | isDirectory
  | notDirectory
  | notText
  | other (reason : String)

def FileError.message : FileError → String
  | .notFound => "No such file or directory (os error 2)"
  | .isDirectory => "Is a directory (os error 21)"
  | .notDirectory => "Not a directory (os error 20)"
  | .notText => "stream did not contain valid UTF-8"
  | .other reason => reason

/-- Files by their paths from the directory on. -/
structure Directory where
  files : List (List String × ByteArray) := []

namespace Directory

/-- A path: does it leave the directory, and which names does it go through? -/
structure Path where
  outside : Bool
  names : List String
  /-- Does it end in a slash? -/
  closed : Bool

/-- A path from its text. Names of one dot stand for the place itself. -/
def Path.ofText (text : String) : Path :=
  let parts := text.splitOn "/"
  { outside := text.startsWith "/"
    names := parts.filter fun name => !name.isEmpty && name ≠ "."
    closed := parts.getLast?.any fun name => name.isEmpty || name = "." }

/-- What is at a path. -/
inductive Node where
  | file (content : ByteArray)
  | directory
  | missing
  /-- The path goes through a file. -/
  | blocked

def isDirectory (d : Directory) (names : List String) : Bool :=
  names.isEmpty || d.files.any fun (path, _) => names.length < path.length && names.isPrefixOf path

/-- Follow names from a place. Above the directory there are only directories, and nothing is known
of what else they hold. -/
def follow (d : Directory) : Bool → List String → List String → Node
  | true, _, [] => .directory
  | true, place, name :: rest => if name = ".." then d.follow true place rest else .missing
  | false, place, [] => if d.isDirectory place then .directory else .missing
  | false, place, name :: rest =>
    if name = ".." then
      if place.isEmpty then d.follow true [] rest else d.follow false place.dropLast rest
    else
      let next := place ++ [name]
      match d.files.lookup next with
      | some content => if rest.isEmpty then .file content else .blocked
      | none => if d.isDirectory next then d.follow false next rest else .missing

def node (d : Directory) (path : Path) : Node :=
  match d.follow path.outside [] path.names with
  | .file content => if path.closed then .blocked else .file content
  | other => other

/-- Is there a file or directory at the path? -/
def holds (d : Directory) (path : String) : Bool :=
  !path.isEmpty &&
    match d.node (.ofText path) with
    | .file _ => true
    | .directory => true
    | .missing => false
    | .blocked => false

def readText (d : Directory) (path : String) : Except FileError String :=
  match d.node (.ofText path) with
  | .file content =>
    match String.fromUTF8? content with
    | some text => .ok text
    | none => .error .notText
  | .directory => .error .isDirectory
  | .missing => .error .notFound
  | .blocked => .error .notDirectory

/-- Replace the content of a file, or add the file. -/
def put (d : Directory) (names : List String) (content : ByteArray) : Directory :=
  { files :=
      if d.files.any (·.1 = names) then
        d.files.map fun (path, old) => if path = names then (path, content) else (path, old)
      else d.files ++ [(names, content)] }

/-- Write a file. Its directory has to be there. -/
def writeText (d : Directory) (path text : String) : Except FileError Directory :=
  let target := Path.ofText path
  match d.follow target.outside [] target.names.dropLast with
  | .missing => .error .notFound
  | .file _ => .error .notDirectory
  | .blocked => .error .notDirectory
  | .directory =>
    if target.outside || target.closed || target.names.getLast?.all (· = "..") then
      .error .isDirectory
    else
      match d.node target with
      | .directory => .error .isDirectory
      | _ => .ok (d.put target.names text.toUTF8)

end Directory

end RngLowering.CommandLine
