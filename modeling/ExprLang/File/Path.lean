import ExprLang.Text.Basic

/-! Paths of files. A slash separates the names on a path, and a path that starts with one is
absolute. -/

namespace ExprLang.Path

def slash : UInt8 := 0x2F

def dot : Text := utf8 "."

def dotDot : Text := utf8 ".."

def isAbsolute (path : Text) : Bool :=
  path.head? = some slash

/-- The pieces of a text between slashes. -/
def split (path : Text) : List Text :=
  path.foldr (fun b names =>
    match names with
    | name :: more => if b = slash then [] :: name :: more else (b :: name) :: more
    | [] => []) [[]]

/-- Goes one name further. The names passed so far are kept last first; `..` leaves the last of
them, and at the root it leads nowhere. -/
def enter (rooted : Bool) (passed : List Text) (name : Text) : List Text :=
  if name.isEmpty || name = dot then passed
  else if name = dotDot then
    match passed with
    | last :: before => if last = dotDot then name :: passed else before
    | [] => if rooted then [] else [name]
  else name :: passed

/-- The names on a path once `.` and `..` are worked out. -/
def names (path : Text) : List Text :=
  ((split path).foldl (enter (isAbsolute path)) []).reverse

/-- The absolute path with the given names. -/
def absolute (names : List Text) : Text :=
  slash :: Text.join [slash] names

/-- The shortest path that leads to the same place. -/
def clean (path : Text) : Text :=
  if isAbsolute path then absolute (names path)
  else if (names path).isEmpty then dot
  else Text.join [slash] (names path)

/-- A path seen from a directory. -/
def join (dir path : Text) : Text :=
  let parts := [dir, path].filter fun part => !part.isEmpty
  if parts.isEmpty then [] else clean (Text.join [slash] parts)

/-- A path made absolute. -/
def fromRoot (current path : Text) : Text :=
  if isAbsolute path then clean path else join current path

/-- All beginnings of a list, the longest first. -/
def beginnings {α : Type} (l : List α) : List (List α) :=
  (List.range (l.length + 1)).reverse.map fun n => l.take n

/-- An absolute path and the directories above it, the nearest first. -/
def ancestors (path : Text) : List Text :=
  (beginnings (names path)).map absolute

end ExprLang.Path
