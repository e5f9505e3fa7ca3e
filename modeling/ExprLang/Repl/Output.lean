import ExprLang.Interpreter.Basic

/-! What people get to see, in colour or without. -/

namespace ExprLang

/-- Where a piece of output goes. -/
inductive Channel where
  | result | problem | listing | trace
  deriving DecidableEq, Repr

structure Output where
  channel : Channel
  text : Text
  deriving DecidableEq, Repr

/-- A text colour: how it is switched on, and how it is switched off at the end of a line. -/
structure Ink where
  codes : String
  resets : String

namespace Ink

def error : Ink := ⟨"31;1", "0;22"⟩
def result : Ink := ⟨"32", "0"⟩
def note : Ink := ⟨"36", "0"⟩

def sequence (codes : String) : Text :=
  utf8 "\x1b[" ++ utf8 codes ++ utf8 "m"

/-- One line. -/
def line (ink : Ink) (color : Bool) (t : Text) : Text :=
  (if color then sequence ink.codes ++ t ++ sequence ink.resets else t) ++ [Text.newline]

/-- A text that brings its own line breaks. -/
def passage (ink : Ink) (color : Bool) (t : Text) : Text :=
  if color then sequence ink.codes ++ t ++ sequence "0" else t

end Ink

namespace Outcome

/-- An outcome as it is shown: the result, the diagnostics, or the fault with its line. -/
def shown (color : Bool) : Outcome → Output
  | ok _ text => ⟨.result, Ink.result.line color text⟩
  | compileError ds => ⟨.problem, ds.flatMap fun d => Ink.error.line color d.text⟩
  | runtimeError e =>
    ⟨.problem, Ink.error.passage color
      (e.fault.message ++ utf8 "\n[line " ++ Text.ofInt e.line.toInt ++ utf8 "] in script\n")⟩

end Outcome

namespace Report

/-- Everything that a run shows, in the order in which it appears. -/
def shown (color : Bool) (r : Report) : List Output :=
  [⟨.listing, r.listing⟩, ⟨.trace, TraceEntry.text r.trace⟩, r.outcome.shown color]

end Report

end ExprLang
