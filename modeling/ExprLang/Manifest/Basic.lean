import ExprLang.File.Path
import ExprLang.Interpreter.Basic
import ExprLang.Text.Quoted
import ExprLang.Toml.Document

/-! Project manifests: the settings of a project, written as a TOML document. -/

namespace ExprLang

structure Manifest where
  name : Text := []
  version : Text := []
  entry : Text := []
  stackSize : Int := 0
  trace : Bool := false
  disassemble : Bool := false
  fingerprint : Bool := false
  verbosity : Int := 0
  logFile : Text := []
  /-- The directory in which the manifest lies. -/
  dir : Text := []
  deriving DecidableEq, Repr

inductive ManifestError where
  | toml
  | unknownKey (key : Text)
  | stackSizeNotPositive
  | stackSizeTooLarge (size : Int)
  deriving DecidableEq, Repr

namespace Manifest

def stackSizeLimit : Int := 16777216

/-- The settings when nothing is said about them. -/
def withDefaults (m : Manifest) : Manifest :=
  if m.stackSize = 0 then { m with stackSize := Machine.defaultCapacity } else m

def default : Manifest :=
  withDefaults {}

end Manifest

def ManifestError.message : ManifestError → Text
  | toml => utf8 "toml: not a valid document"
  | unknownKey key => utf8 "unknown key " ++ key.quoted
  | stackSizeNotPositive => utf8 "vm.stack-size must be positive"
  | stackSizeTooLarge size =>
    utf8 "vm.stack-size " ++ Text.ofInt size ++ utf8 " exceeds maximum " ++
      Text.ofInt Manifest.stackSizeLimit

namespace Manifest

/-- A setting: where a value of the right type is stored. -/
inductive Setting where
  | text (store : Manifest → Text → Manifest)
  | number (store : Manifest → Int → Manifest)
  | flag (store : Manifest → Bool → Manifest)

/-- The settings, by the tables that they stand in. -/
def settings : List (String × List (String × Setting)) := [
  ("project", [
    ("name", .text fun m s => { m with name := s }),
    ("version", .text fun m s => { m with version := s })]),
  ("source", [("entry", .text fun m s => { m with entry := s })]),
  ("vm", [
    ("stack-size", .number fun m n => { m with stackSize := n }),
    ("trace", .flag fun m b => { m with trace := b })]),
  ("compiler", [
    ("disassemble", .flag fun m b => { m with disassemble := b }),
    ("fingerprint", .flag fun m b => { m with fingerprint := b })]),
  ("log", [
    ("verbosity", .number fun m n => { m with verbosity := n }),
    ("file", .text fun m s => { m with logFile := s })])]

/-- A letter in lower case. Two characters beyond ASCII are forms of ASCII letters. -/
def foldCase (c : Char) : Char :=
  if c = Char.ofNat 0x17F then 's' else if c = Char.ofNat 0x212A then 'k' else c.toLower

def sameFolded (name : String) (key : Text) : Bool :=
  key.isUtf8 && (key.glyphs.map fun g => foldCase g.char) = name.toList.map foldCase

/-- The entry of a name: spelled exactly so, or else so but for case. -/
def find? {α : Type} (entries : List (String × α)) (key : Text) : Option α :=
  match entries.find? fun (name, _) => utf8 name = key with
  | some (_, a) => some a
  | none => (entries.find? fun (name, _) => sameFolded name key).map Prod.snd

/-- Stores a value, which has to be of the type of the setting. -/
def Setting.store? (s : Setting) (m : Manifest) (n : Toml.Node) : Option Manifest :=
  match s, n with
  | .text store, .value (.string s) => some (store m s)
  | .number store, .value (.integer n) => some (store m n)
  | .flag store, .value (.bool b) => some (store m b)
  | _, _ => none

/-- Stores the settings of one table. -/
def storeTable? (fields : List (String × Setting)) (m : Manifest) : Toml.Node → Option Manifest
  | .table entries => entries.foldlM (fun m (name, n) =>
      match find? fields name with
      | none => some m
      | some s => s.store? m n) m
  | _ => none

def store? (m : Manifest) (root : Toml.Entries) : Option Manifest :=
  root.foldlM (fun m (name, n) =>
    match find? settings name with
    | none => some m
    | some fields => storeTable? fields m n) m

/-- Whether a key names a setting, or a table of them, among what the document defines in the end. -/
def isStored (root : Toml.Entries) : Toml.Key → Bool
  | [table] => (root.lookup table).isSome && (find? settings table).isSome
  | [table, name] =>
    match root.lookup table, find? settings table with
    | some (.table entries), some fields =>
      (entries.lookup name).isSome && (find? fields name).isSome
    | _, _ => false
  | _ => false

def validate (m : Manifest) : Except ManifestError Unit :=
  if m.stackSize ≤ 0 then .error .stackSizeNotPositive
  else if stackSizeLimit < m.stackSize then .error (.stackSizeTooLarge m.stackSize)
  else .ok ()

/-- Reads a manifest. Values of the wrong type are reported before unknown keys, and those before
values out of range. -/
def parse (t : Text) : Except ManifestError Manifest :=
  match Toml.Document.read? t with
  | none => .error .toml
  | some document =>
    match store? {} document.root with
    | none => .error .toml
    | some m =>
      match document.keys.find? fun key => !isStored document.root key with
      | some key => .error (.unknownKey (Toml.Key.text key))
      | none => (validate m.withDefaults).map fun _ => m.withDefaults

/-- A path seen from the directory of the manifest. -/
def place (m : Manifest) (path : Text) : Text :=
  if Path.isAbsolute path || m.dir.isEmpty then path else Path.join m.dir path

/-- The program to run, or nothing if none is given. -/
def entryFile (m : Manifest) : Text :=
  if m.entry.isEmpty then [] else m.place m.entry

/-- Where the log goes, if it goes to a file. -/
def logFile? (m : Manifest) : Option Text :=
  if m.logFile.isEmpty then none else some (m.place m.logFile)

/-- How to run programs of the project. -/
def config (m : Manifest) : Config :=
  { stackSize := m.stackSize, trace := m.trace, listing := m.disassemble,
    fingerprint := m.fingerprint }

end Manifest

end ExprLang
