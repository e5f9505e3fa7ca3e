import ExprLang.Interpreter.Basic
import ExprLang.Numeral.Prefixed
import ExprLang.Text.Quoted

/-! Command-line flags. A flag is a name behind one or two dashes; its value stands behind an equals
sign or, unless the flag is a switch, in the next argument. Flags end at the first argument that is
none, or at two dashes alone. -/

namespace ExprLang

structure Flags where
  verbosity : Int := 0
  source : Text := []
  disassemble : Bool := false
  trace : Bool := false
  fingerprint : Bool := false
  interactive : Bool := false
  deriving DecidableEq, Repr

inductive FlagError where
  | help
  | unknown (name : Text)
  | missingValue (name : Text)
  | badSyntax (argument : Text)
  | badSwitch (name value : Text)
  | badNumber (name value : Text) (error : Prefixed.ReadError)
  deriving DecidableEq, Repr

namespace FlagError

def message : FlagError → Text
  | help => []
  | unknown name => utf8 "flag provided but not defined: -" ++ name
  | missingValue name => utf8 "flag needs an argument: -" ++ name
  | badSyntax argument => utf8 "bad flag syntax: " ++ argument
  | badSwitch name value =>
    utf8 "invalid boolean value " ++ value.quoted ++ utf8 " for -" ++ name ++ utf8 ": parse error"
  | badNumber name value error =>
    utf8 "invalid value " ++ value.quoted ++ utf8 " for flag -" ++ name ++
      (match error with
        | .malformed => utf8 ": parse error"
        | .outOfRange => utf8 ": value out of range")

end FlagError

namespace Flags

/-- How a switch is said to be on or off. -/
def switch? (value : Text) : Option Bool :=
  if (["1", "t", "T", "TRUE", "true", "True"].map utf8).contains value then some true
  else if (["0", "f", "F", "FALSE", "false", "False"].map utf8).contains value then some false
  else none

/-- The switches, by name. -/
def switches : List (Text × (Flags → Bool → Flags)) := [
  (utf8 "d", fun f on => { f with disassemble := on }),
  (utf8 "trace", fun f on => { f with trace := on }),
  (utf8 "fingerprint", fun f on => { f with fingerprint := on }),
  (utf8 "i", fun f on => { f with interactive := on })]

/-- The flags with other values, by name. -/
def options : List (Text × (Flags → Text → Except FlagError Flags)) := [
  (utf8 "e", fun f value => .ok { f with source := value }),
  (utf8 "v", fun f value =>
    match Prefixed.read value with
    | .ok n => .ok { f with verbosity := n }
    | .error e => .error (.badNumber (utf8 "v") value e))]

def dash : UInt8 := 0x2D

def equals : UInt8 := 0x3D

/-- What an argument gives: no flag, the end of the flags, or a name with perhaps a value. -/
inductive Argument where
  | plain
  | last
  | flag (name : Text) (value : Option Text)
  | bad

def classify (argument : Text) : Argument :=
  match argument with
  | a :: b :: more =>
    if a ≠ dash then .plain
    else if b = dash && more.isEmpty then .last
    else
      let body := if b = dash then more else b :: more
      if body.head? = some dash || body.head? = some equals then .bad
      else
        let name := body.takeWhile (· ≠ equals)
        .flag name (if name.length < body.length then some (body.drop (name.length + 1)) else none)
  | _ => .plain

/-- Reads flags, and returns the arguments behind them. -/
def parse (f : Flags) : List Text → Except FlagError (Flags × List Text)
  | [] => .ok (f, [])
  | argument :: rest =>
    match classify argument with
    | .plain => .ok (f, argument :: rest)
    | .last => .ok (f, rest)
    | .bad => .error (.badSyntax argument)
    | .flag name value =>
      match switches.lookup name, options.lookup name with
      | some set, _ =>
        let given := value.getD (utf8 "true")
        match switch? given with
        | none => .error (.badSwitch name given)
        | some on => parse (set f on) rest
      | none, some set =>
        match value, rest with
        | some given, rest =>
          match set f given with
          | .error e => .error e
          | .ok f => parse f rest
        | none, given :: rest =>
          match set f given with
          | .error e => .error e
          | .ok f => parse f rest
        | none, [] => .error (.missingValue name)
      | none, none =>
        if name = utf8 "help" || name = utf8 "h" then .error .help else .error (.unknown name)

/-- Flags add to what a project is configured to do. -/
def apply (f : Flags) (config : Config) : Config :=
  { config with
    listing := config.listing || f.disassemble
    trace := config.trace || f.trace
    fingerprint := config.fingerprint || f.fingerprint }

end Flags

end ExprLang
