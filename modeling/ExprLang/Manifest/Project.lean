import ExprLang.File.Disk
import ExprLang.Manifest.Basic

/-! Projects: directories with a manifest. A project is found from any directory inside it. -/

namespace ExprLang

inductive ProjectError where
  | unreadable (path : Text) (fault : FileFault)
  | invalid (path : Text) (error : ManifestError)
  deriving DecidableEq, Repr

def ProjectError.message : ProjectError → Text
  | unreadable path fault => utf8 "cannot read " ++ path ++ utf8 ": " ++ fault.onRead path
  | invalid path error => utf8 "parse error in " ++ path ++ utf8 ": " ++ error.message

namespace Project

def fileName : Text := utf8 "quill.toml"

def manifestPath (dir : Text) : Text :=
  Path.join dir fileName

/-- The manifest that lies in a directory. -/
def load {m : Type → Type} [Monad m] (disk : Disk m) (current dir : Text) :
    m (Except ProjectError Manifest) := do
  let path := manifestPath dir
  match ← disk.read path with
  | .error fault => return .error (.unreadable path fault)
  | .ok content =>
    match Manifest.parse content with
    | .error error => return .error (.invalid path error)
    | .ok manifest => return .ok { manifest with dir := Path.fromRoot current dir }

/-- The first of some directories that has a manifest. -/
def search {m : Type → Type} [Monad m] (disk : Disk m) : List Text → m (Option Text)
  | [] => return none
  | dir :: more => do
    if ← disk.present (manifestPath dir) then return some dir
    else search disk more

/-- The manifest nearest to a directory: in the directory itself or above it. -/
def find {m : Type → Type} [Monad m] (disk : Disk m) (current start : Text) :
    m (Option (Except ProjectError Manifest)) := do
  match ← search disk (Path.ancestors (Path.fromRoot current start)) with
  | none => return none
  | some dir => return some (← load disk current dir)

end Project

end ExprLang
