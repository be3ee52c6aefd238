import PeerNode.Config.Reader

/-!
# Configuration files

A configuration may come from a file.  Which files there are is given as a view of the file
system: the contents of the files and the places of the directories.  A path leads from the root,
or from the directory at which relative paths begin, one name after another; every name but the
last has to lead to a directory, and so has the last if a slash follows it.

* `FileProblem`: why a file cannot be read.
* `Files`, `Files.read`: a view of the file system, and the contents of a file in it.
* `Files.find`: the place to which a path leads.
* `Config.ofFile`: the configuration in a file.
-/

namespace PeerNode

/-- Why a file cannot be read. -/
inductive FileProblem where
  | missing
  | directory
  | notDirectory
  | nameTooLong
  | nulInName
  | noText
  /-- Any other reason that the host gives. -/
  | other (reason : String)
  deriving DecidableEq, Repr

/-- What the user reads about a file that cannot be read. -/
def FileProblem.message : FileProblem → String
  | missing => "No such file or directory (os error 2)"
  | directory => "Is a directory (os error 21)"
  | notDirectory => "Not a directory (os error 20)"
  | nameTooLong => "File name too long (os error 36)"
  | nulInName => "file name contained an unexpected NUL byte"
  | noText => "stream did not contain valid UTF-8"
  | other reason => reason

/-- A place in the file system: the names on the way to it from the root. -/
abbrev Place := List String

/-- A view of the file system. -/
structure Files where
  /-- The contents of the files, by place. -/
  contents : List (Place × Bytes) := []
  /-- The directories, beside the root. -/
  directories : List Place := []
  /-- The directory at which relative paths begin. -/
  home : Place := []

namespace Files

def maxName : Nat := 255

def maxPath : Nat := 4095

def isDirectory (files : Files) (place : Place) : Bool :=
  place.isEmpty || place == files.home || files.directories.contains place

/-- The place to which a name leads from another place, which has to be a directory. -/
def enter (files : Files) (place : Place) (name : List Char) : Except FileProblem Place :=
  if !files.isDirectory place then .error .notDirectory
  else match name with
    | [] | ['.'] => .ok place
    | ['.', '.'] => .ok place.dropLast
    | _ =>
      let next := place ++ [String.ofList name]
      if maxName < Json.octets name then .error .nameTooLong
      else if files.isDirectory next || (files.contents.lookup next).isSome then .ok next
      else .error .missing

/-- The place to which a path leads, name by name; the first name that leads nowhere decides why
it leads nowhere. -/
def find (files : Files) (path : List Char) : Except FileProblem Place :=
  match path.splitOn '/' with
  | [] :: (name :: names) => (name :: names).foldlM files.enter []
  | [[]] => .error .missing
  | names => names.foldlM files.enter files.home

/-- The octets of a file. -/
def read (files : Files) (path : String) : Except FileProblem Bytes :=
  let chars := path.toList
  if chars.contains '\x00' then .error .nulInName
  else if maxPath < path.utf8ByteSize then .error .nameTooLong
  else match files.find chars with
    | .error problem => .error problem
    | .ok place =>
      match files.contents.lookup place with
      | some contents => .ok contents
      | none => .error .directory

end Files

namespace Config

/-- The configuration in a file with these contents, or whose contents cannot be had. -/
def ofContents (path : String) (contents : Except FileProblem Bytes) : Except NodeError Config :=
  let unreadable := fun problem : FileProblem =>
    Except.error (NodeError.invalidConfig ("cannot read " ++ path ++ ": " ++ problem.message))
  match contents with
  | .error problem => unreadable problem
  | .ok bytes =>
    match Bytes.text? bytes with
    | none => unreadable .noText
    | some text => ofJson text

def ofFile (files : Files) (path : String) : Except NodeError Config :=
  ofContents path (files.read path)

end Config
end PeerNode
