import AccessRules.Text.Pieces

/-!
# Files by path

A path is names with slashes between them, each of which leads from a directory to what has that
name there. A path that begins with a slash sets out from the root, any other one from the working
directory.
-/

namespace AccessRules.Command

/-! ## Failures -/

/-- Why the text of a file cannot be read. -/
inductive FileFlaw
  /-- A name on the path has nothing in its directory. -/
  | missing
  /-- The path goes on behind a file. -/
  | notDirectory
  /-- The path ends at a directory. -/
  | directory
  /-- A name on the path, or the path itself, is longer than any can be. -/
  | longName
  | other (reason : String)
  deriving DecidableEq, Repr

/-- The wording of a flaw of a path. -/
def FileFlaw.message (path : String) : FileFlaw → String
  | .missing => s!"ENOENT: no such file or directory, open '{path}'"
  | .notDirectory => s!"ENOTDIR: not a directory, open '{path}'"
  | .directory => "EISDIR: illegal operation on a directory, read"
  | .longName => s!"ENAMETOOLONG: name too long, open '{path}'"
  | .other reason => reason

/-- Reads the text of a file, or says why not. -/
abbrev ReadFile := String → Except FileFlaw String

/-! ## Trees of files -/

/-- Files by the names that lead to them from the root, and the directory in which paths begin. The
directories are those that files or the working directory are in. -/
structure FileTree where
  workingDirectory : List String
  files : List (List String × String)
  deriving DecidableEq, Repr

/-- The names between the slashes of a path. -/
def namesOf (path : String) : List String :=
  (Text.split (· == '/') path.toList).map String.ofList

/-- The most octets of a name. -/
def maxNameSize : Nat := 255

/-- The most octets of a path. -/
def maxPathSize : Nat := 4095

namespace FileTree

/-- Whether names lead from the root to a directory. -/
def isDirectory (tree : FileTree) (place : List String) : Bool :=
  place.isPrefixOf tree.workingDirectory ||
    tree.files.any fun file => place.isPrefixOf file.1 && place != file.1

/-- Follows names from the directory at `place` to the text of a file. Two points lead to the
directory around, of which the root has none but itself. -/
def follow (tree : FileTree) (place : List String) : List String → Except FileFlaw String
  | [] => .error .directory
  | name :: rest =>
    if name = "" ∨ name = "." then follow tree place rest
    else if name = ".." then follow tree place.dropLast rest
    else if maxNameSize < name.utf8ByteSize then .error .longName
    else
      match tree.files.lookup (place ++ [name]) with
      | some text => if rest = [] then .ok text else .error .notDirectory
      | none =>
        if tree.isDirectory (place ++ [name]) then follow tree (place ++ [name]) rest
        else .error .missing

/-- The text of the file that a path leads to. -/
def read (tree : FileTree) : ReadFile := fun path =>
  if path = "" then .error .missing
  else if maxPathSize < path.utf8ByteSize then .error .longName
  else
    match namesOf path with
    | "" :: names => tree.follow [] names
    | names => tree.follow tree.workingDirectory names

end FileTree

example : namesOf "/a//b/" = ["", "a", "", "b", ""] := by decide
example : (FileTree.mk ["w"] [(["w", "r"], "x")]).read "./../w//r" = .ok "x" := rfl
example : (FileTree.mk ["w"] [(["w", "r"], "x")]).read "r/." = .error .notDirectory := rfl

end AccessRules.Command
