import ExprLang.File.Path

/-! Access to files: whether there is one, what is in it, and whether it can be added to. -/

namespace ExprLang

inductive FileFault where
  | notFound
  | notDirectory
  | isDirectory
  | other (reason : Text)
  deriving DecidableEq, Repr

namespace FileFault

def reason : FileFault → Text
  | notFound => utf8 "no such file or directory"
  | notDirectory => utf8 "not a directory"
  | isDirectory => utf8 "is a directory"
  | other reason => reason

/-- Why a path could not be opened. -/
def onOpen (path : Text) (f : FileFault) : Text :=
  utf8 "open " ++ path ++ utf8 ": " ++ f.reason

/-- Why a path could not be read. A directory can be opened for that but not read. -/
def onRead (path : Text) (f : FileFault) : Text :=
  if f = isDirectory then utf8 "read " ++ path ++ utf8 ": " ++ f.reason else f.onOpen path

end FileFault

/-- A disk, by what can be asked of it. -/
structure Disk (m : Type → Type) where
  /-- Whether a path leads to a file or a directory. -/
  present : Text → m Bool
  /-- The content of a file. -/
  read : Text → m (Except FileFault Text)
  /-- Opens a file for writing at its end. A file that is missing is made. -/
  append : Text → m (Except FileFault Unit)

end ExprLang
