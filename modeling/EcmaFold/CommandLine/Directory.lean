import EcmaFold.CommandLine.Fault

/-!
A directory held in memory, in which paths are found as a file system finds them: step by step, where
each step but the last has to lead to a directory.
-/

namespace EcmaFold.CommandLine

/-- The files below a directory, each with the names that lead to it. The directories on the way exist
with the file. -/
structure Directory where
  files : List (List Bytes × Bytes)

/-- What a path leads to. -/
inductive Place where
  | file (names : List Bytes) (content : Bytes)
  | directory
  /-- A name that is still free in a directory. -/
  | vacant (names : List Bytes)
  deriving Repr

namespace Directory

/-- The parts of a path between slashes. -/
def steps : (path : Bytes) → List Bytes
  | [] => [[]]
  | byte :: rest =>
    if byte = 0x2F then [] :: steps rest
    else
      match steps rest with
      | [] => [[byte]]
      | step :: more => (byte :: step) :: more

/-- The directory with the given files, each with its path from there. -/
def ofFiles (files : List (Bytes × Bytes)) : Directory :=
  ⟨files.map fun (path, content) => (steps path, content)⟩

/-- The longest name that a file can have. -/
def longestName : Nat := 255

/-- The longest path that can be looked up. -/
def longestPath : Nat := 4095

/-- What stands under a name of a directory. -/
def child (root : Directory) (names : List Bytes) : Place :=
  match root.files.lookup names with
  | some content => .file names content
  | none => if root.files.any fun file => names.isPrefixOf file.1 then .directory else .vacant names

/-- Follows a path from a directory, given by the names that lead to it; `none` stands for a directory
further up, of which nothing is known. -/
def follow (root : Directory) : (here : Option (List Bytes)) → List Bytes → Except FileFault Place
  | _, [] => .ok .directory
  | here, step :: rest =>
    if step.isEmpty ∨ step = utf8 "." then root.follow here rest
    else if step = utf8 ".." then
      root.follow (here.bind fun names => if names.isEmpty then none else some names.dropLast) rest
    else if longestName < step.length then .error .nameTooLong
    else
      match here with
      | none => .error .missing
      | some names =>
        match root.child (names ++ [step]) with
        | .file names content => if rest.isEmpty then .ok (.file names content) else .error .notDirectory
        | .directory => root.follow (some (names ++ [step])) rest
        | .vacant names => if rest.isEmpty then .ok (.vacant names) else .error .missing

/-- What a path leads to. A path that begins with a slash leaves the directory. -/
def find (root : Directory) (path : Bytes) : Except FileFault Place :=
  if path.isEmpty then .error .missing
  else if longestPath < path.length then .error .nameTooLong
  else root.follow (if path.head? = some 0x2F then none else some []) (steps path)

/-- The file that is always empty. -/
def emptyFile : Bytes := utf8 "/dev/null"

/-- The content of a file. -/
def read (root : Directory) (path : Bytes) : Except FileFault Bytes :=
  if path = emptyFile then .ok []
  else
    match root.find path with
    | .ok (.file _ content) => .ok content
    | .ok .directory => .error .isDirectory
    | .ok (.vacant _) => .error .missing
    | .error fault => .error fault

/-- Writes a file, if the path allows it. -/
def write (root : Directory) (path content : Bytes) : Directory :=
  match root.find path with
  | .ok (.file names _) | .ok (.vacant names) =>
    ⟨(names, content) :: root.files.filter fun file => file.1 ≠ names⟩
  | .ok .directory | .error _ => root

end Directory

end EcmaFold.CommandLine
