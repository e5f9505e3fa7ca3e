import ExprLang.Chunk.Record
import ExprLang.Interpreter.Log
import ExprLang.Machine.Basic

/-! Compiling a program and running it on a fresh machine. -/

namespace ExprLang

structure Config where
  /-- The size of the operand stack; the default one if it is not positive. -/
  stackSize : Int := 0
  trace : Bool := false
  listing : Bool := false
  fingerprint : Bool := false
  deriving DecidableEq, Repr

inductive Status where
  | ok | compileError | runtimeError
  deriving DecidableEq, Repr

namespace Status

def named : List (Status × String) :=
  [(ok, "ok"), (compileError, "compile error"), (runtimeError, "runtime error")]

def name (s : Status) : String :=
  (named.lookup s).getD ""

def nameOfCode (n : Nat) : String :=
  match named[n]? with
  | some (_, name) => name
  | none => "Status(" ++ toString n ++ ")"

end Status

inductive Outcome where
  | ok (v : Value) (text : Text)
  | compileError (ds : List Diagnostic)
  | runtimeError (e : RuntimeError)

def Outcome.status : Outcome → Status
  | ok _ _ => .ok
  | compileError _ => .compileError
  | runtimeError _ => .runtimeError

/-- All that came of a program: its outcome, and what was listed, traced and logged on the way. -/
structure Report where
  outcome : Outcome
  listing : Text
  trace : List TraceEntry
  log : List LogEntry

/-- The listing of a compiled program. Without a name it is called `code`. -/
def Chunk.titledListing (c : Chunk) (title : Text) : Text :=
  c.listingText (if title.isEmpty then utf8 "code" else title)

/-- The first eight bytes of a fingerprint in hexadecimal. -/
def Chunk.shortFingerprint (c : Chunk) : Text :=
  Text.hexBytes (c.fingerprint.take 8)

/-- Runs a compiled program. -/
def Config.run (config : Config) (common : List (String × Text)) (c : Chunk) : Outcome × List TraceEntry × List LogEntry :=
  let e := (Machine.new config.stackSize config.trace).execute (some c)
  match e.outcome with
  | .error err =>
    let error := ("error", err.message)
    (.runtimeError err, e.trace, [
      .debug "execution halted" (common ++ [error]),
      .debug "runtime error" (common ++ [error])])
  | .ok v =>
    let text := e.machine.strings.format v
    (.ok v text, e.trace, [.debug "run finished" (common ++ [("result", text)])])

/-- Compiles and runs a program. The name identifies this run in its listing and its log. -/
def interpret (config : Config) (name : Text) (source : Text) : Report :=
  let common := [("run", name)]
  let compiled := compile source
  let compiling := LogEntry.ofCompilation common compiled
  match compiled with
  | .error ds =>
    let failed := LogEntry.debug "compile failed" (common ++ [("error", Diagnostic.joined ds)])
    ⟨.compileError ds, [], [], compiling ++ [failed]⟩
  | .ok c =>
    let listing := if config.listing then c.titledListing name else []
    let marking :=
      if config.fingerprint then
        [⟨.info, "compiled chunk", common ++ [("fingerprint", c.shortFingerprint)]⟩]
      else []
    let (outcome, trace, running) := config.run common c
    ⟨outcome, listing, trace, compiling ++ marking ++ running⟩

end ExprLang
