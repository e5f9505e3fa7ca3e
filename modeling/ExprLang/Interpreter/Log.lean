import ExprLang.Program.Code
import ExprLang.Text.Basic

/-! What is logged about compiling and running a program. -/

namespace ExprLang

inductive LogLevel where
  | debug | info
  deriving DecidableEq, Repr

def LogLevel.name : LogLevel → String
  | debug => "debug"
  | info => "info"

/-- A message with named details. -/
structure LogEntry where
  level : LogLevel
  message : String
  details : List (String × Text)
  deriving DecidableEq, Repr

namespace LogEntry

def debug (message : String) (details : List (String × Text)) : LogEntry :=
  ⟨.debug, message, details⟩

/-- What is logged about a compilation: every diagnostic, then how it ended. -/
def ofCompilation (common : List (String × Text)) : Except (List Diagnostic) Chunk → List LogEntry
  | .error ds =>
    ds.map (fun d =>
      debug "compile error" (common ++ [("line", Text.ofNat d.line), ("message", d.message)])) ++
    [debug "compile failed" (common ++ [("diagnostics", Text.ofNat ds.length)])]
  | .ok c => [debug "compile finished" (common ++ [
      ("bytes", Text.ofNat c.code.size), ("constants", Text.ofNat c.constants.size),
      ("objects", Text.ofNat c.strings.size)])]

end LogEntry

end ExprLang
