import ExprLang.Command.Flags
import ExprLang.Manifest.Project
import ExprLang.Repl.Basic

/-! The command: it runs a program from the command line, from a file or from the project's entry, or
starts the interactive loop. -/

namespace ExprLang.Command

def usage : Text :=
  Text.lines <| List.map utf8 [
    "Usage: quill [options] [file]",
    "",
    "Compiles and runs a Quill program. With no file and no -e, starts the REPL.",
    "",
    "Options:",
    "  -d\tPrint the disassembly of each compiled chunk",
    "  -e string",
    "    \tEvaluate the given source and print the result",
    "  -fingerprint",
    "    \tLog the content hash of each compiled chunk",
    "  -i\tStart interactive REPL",
    "  -trace",
    "    \tTrace VM execution to stderr",
    "  -v int",
    "    \tLog verbosity (higher is more verbose)",
    "",
    "Examples:",
    "  quill -e '1 + 2 * 3'     # Evaluate an expression",
    "  quill -d prog.ql         # Run a file, printing its bytecode",
    "  quill                    # Run [source] entry from quill.toml, or the REPL"]

/-- What a command line comes down to. -/
inductive Action where
  /-- Says something on the error channel and stops. -/
  | stop (code : Nat) (text : Text)
  | evaluate (config : Config) (source : Text)
  | converse (config : Config)

def complaint (color : Bool) (t : Text) : Text :=
  Ink.error.passage color (utf8 "Error: " ++ t ++ [Text.newline])

/-- Runs a file. -/
def openFile {m : Type → Type} [Monad m] (disk : Disk m) (color : Bool) (config : Config) (path : Text) :
    m Action := do
  match ← disk.read path with
  | .error fault => return .stop 66 (complaint color (fault.onRead path))
  | .ok source => return .evaluate config source

/-- Decides between the given source, a file, the entry of the project and the interactive loop. -/
def choose {m : Type → Type} [Monad m] (disk : Disk m) (color : Bool) (manifest : Manifest) (flags : Flags)
    (files : List Text) : m Action :=
  let config := flags.apply manifest.config
  let file (path : Text) : m Action :=
    if path.isEmpty then return .converse config else openFile disk color config path
  if !flags.source.isEmpty then return .evaluate config flags.source
  else
    match files with
    | [] => file (if flags.interactive then [] else manifest.entryFile)
    | [path] => file path
    | _ => return .stop 64 usage

/-- At this verbosity and below nothing is logged. -/
def silence : Int := -4

/-- Opens the log file of a project, if it has one and logs anything. -/
def openLog {m : Type → Type} [Monad m] (disk : Disk m) (manifest : Manifest) (flags : Flags) :
    m (Except Text Unit) := do
  match manifest.logFile? with
  | none => return .ok ()
  | some path =>
    if max manifest.verbosity flags.verbosity ≤ silence then return .ok ()
    else
      match ← disk.append path with
      | .error fault => return .error (utf8 "log file error: " ++ fault.onOpen path ++ [Text.newline])
      | .ok _ => return .ok ()

/-- Works out what to do in a project. -/
def proceed {m : Type → Type} [Monad m] (disk : Disk m) (color : Bool) (manifest : Manifest)
    (flags : Flags) (files : List Text) : m Action := do
  match ← openLog disk manifest flags with
  | .error complaint => return .stop 1 complaint
  | .ok _ => choose disk color manifest flags files

/-- Works out what to do: flags first, then the manifest of the project. -/
def plan {m : Type → Type} [Monad m] (disk : Disk m) (color : Bool) (current : Text) (args : List Text) :
    m Action := do
  match Flags.parse {} args with
  | .error .help => return .stop 0 usage
  | .error e => return .stop 2 (e.message ++ [Text.newline] ++ usage)
  | .ok (flags, files) =>
    match ← Project.find disk current Path.dot with
    | none => proceed disk color Manifest.default flags files
    | some (.ok manifest) => proceed disk color manifest flags files
    | some (.error e) => return .stop 64 (complaint color e.message)

/-- The exit code of a run. -/
def exitCode : Status → Nat
  | .ok => 0
  | .compileError => 65
  | .runtimeError => 70

/-- Does what was worked out, given all of the standard input. -/
def Action.perform (color : Bool) (name input : Text) : Action → Nat × List Output
  | stop code text => (code, [⟨.problem, text⟩])
  | evaluate config source =>
    let report := interpret config name source
    (exitCode report.outcome.status, report.shown color)
  | converse config => (0, Repl.converse ⟨config, color⟩ name input)

/-- Whether a channel is the standard output rather than the error output. -/
def isStandard : Channel → Bool
  | .result | .listing => true
  | .problem | .trace => false

end ExprLang.Command
