import ExprLang.File.Disk

/-! Trees of directories and files, and the disk whose state is such a tree. -/

namespace ExprLang

inductive FileNode where
  | file (content : Text)
  | directory
  deriving DecidableEq, Repr

/-- What lies under which names. The root is always a directory. -/
structure FileTree where
  nodes : List (List Text × FileNode) := []

namespace FileTree

def get? (tree : FileTree) (names : List Text) : Option FileNode :=
  if names.isEmpty then some .directory else tree.nodes.lookup names

/-- Adds a node, in place of one with the same names. -/
def insert (tree : FileTree) (names : List Text) (n : FileNode) : FileTree :=
  ⟨(names, n) :: tree.nodes.filter fun (other, _) => other ≠ names⟩

/-- Adds a directory and the ones that it lies in. -/
def addDirectory (tree : FileTree) (names : List Text) : FileTree :=
  (Path.beginnings names).foldl (fun tree names => tree.insert names .directory) tree

/-- Adds a file and the directories that it lies in. -/
def addFile (tree : FileTree) (names : List Text) (content : Text) : FileTree :=
  (tree.addDirectory names.dropLast).insert names (.file content)

/-- Follows a path name by name. Only a directory leads on, even to itself. -/
def follow (tree : FileTree) (names : List Text) : List Text → Except FileFault (List Text)
  | [] => .ok names
  | name :: path =>
    match tree.get? names with
    | none => .error .notFound
    | some (.file _) => .error .notDirectory
    | some .directory =>
      if name.isEmpty || name = Path.dot then follow tree names path
      else if name = Path.dotDot then follow tree names.dropLast path
      else follow tree (names ++ [name]) path

/-- What a path leads to from a current directory. -/
def resolve (tree : FileTree) (current : List Text) (path : Text) : Except FileFault FileNode :=
  if path.isEmpty then .error .notFound
  else
    let start := if Path.isAbsolute path then [] else current
    match tree.follow start (Path.split path) with
    | .error fault => .error fault
    | .ok names =>
      match tree.get? names with
      | none => .error .notFound
      | some n => .ok n

def read (tree : FileTree) (current : List Text) (path : Text) : Except FileFault Text :=
  match tree.resolve current path with
  | .error fault => .error fault
  | .ok .directory => .error .isDirectory
  | .ok (.file content) => .ok content

/-- The tree with a file at a path, an empty one if there was none. A path that ends with a slash
names a directory. -/
def append (tree : FileTree) (current : List Text) (path : Text) : Except FileFault FileTree :=
  let split := Path.split path
  let names := (split.reverse.dropWhile List.isEmpty).reverse
  let start := if Path.isAbsolute path then [] else current
  match names.getLast? with
  | none => .error (if path.isEmpty then .notFound else .isDirectory)
  | some name =>
    match tree.follow start names.dropLast with
    | .error fault => .error fault
    | .ok dir =>
      match tree.get? dir, tree.get? (dir ++ [name]) with
      | none, _ => .error .notFound
      | some (.file _), _ => .error .notDirectory
      | some .directory, n =>
        if name = Path.dot || name = Path.dotDot || names.length < split.length then
          .error .isDirectory
        else
          match n with
          | none => .ok (tree.insert (dir ++ [name]) (.file []))
          | some (.file _) => .ok tree
          | some .directory => .error .isDirectory

/-- The disk of a tree, seen from a current directory. -/
def disk (current : List Text) : Disk (StateM FileTree) where
  present path := return ((← get).resolve current path).isOk
  read path := return (← get).read current path
  append path := do
    match (← get).append current path with
    | .error fault => return .error fault
    | .ok tree =>
      set tree
      return .ok ()

end FileTree

end ExprLang
