import ExprLang.Repl.Output
import ExprLang.Text.Trim

/-! The interactive loop. Lines are collected until one of them ends with a semicolon or is empty;
then what was collected runs. A colon at the start of fresh input gives a command. -/

namespace ExprLang.Repl

/-- The longest line, with its line break, that is read. -/
def maxLine : Nat := 65536

/-- A line without a carriage return at its end. -/
def dropReturn (line : Array UInt8) : Text :=
  if line.back? = some 0x0D then line.pop.toList else line.toList

/-- Appends the lines of a text. A line that is too long ends the input. -/
def linesInto (read : Array Text) (line : Array UInt8) : Text → Array Text
  | [] => if line.isEmpty || maxLine ≤ line.size then read else read.push (dropReturn line)
  | b :: rest =>
    if b = Text.newline then
      if maxLine ≤ line.size then read else linesInto (read.push (dropReturn line)) #[] rest
    else linesInto read (line.push b) rest

/-- The lines of an input. -/
def lines (input : Text) : List Text :=
  (linesInto #[] #[] input).toList

/-- How the loop runs programs and shows what comes of them. -/
structure Setting where
  config : Config
  color : Bool

def banner : Text :=
  utf8 "Quill REPL (type 'exit' to quit, ':help' for commands)"

/-- The prompt shows whether input has been collected. -/
def prompt (collected : Text) : Text :=
  if collected.isEmpty then utf8 ">> " else utf8 ".. "

def help : Text :=
  utf8 "Commands:\n" ++
  utf8 "  :dis <source>  Show the bytecode for source without running it\n" ++
  utf8 "  :help          Show this help\n" ++
  utf8 "Input runs when a line ends with ';' or on an empty line.\n"

/-- A command is a word and, behind a space, its argument. -/
def command (color : Bool) (line : Text) : Text :=
  let word := line.takeWhile (· ≠ 0x20)
  let argument := line.drop (word.length + 1)
  if word = utf8 "help" || word = utf8 "h" then help
  else if word = utf8 "dis" || word = utf8 "d" then
    match compile argument with
    | .error ds => Ink.error.line color (Diagnostic.joined ds)
    | .ok c => c.listingText []
  else Ink.error.passage color (utf8 "Unknown command: " ++ word ++ [Text.newline])

/-- What one line leads to: output, and the input collected so far unless the loop ends. -/
structure Reply where
  outputs : List Output
  collected : Option Text

/-- Runs a program under a name. Problems are part of the conversation. -/
def Setting.run (s : Setting) (name program : Text) : List Output :=
  ((interpret s.config name program).shown s.color).map fun o =>
    if o.channel = .problem then { o with channel := .result } else o

/-- Answers one line. -/
def answer (s : Setting) (name collected line : Text) : Reply :=
  if collected.isEmpty && (line = utf8 "exit" || line = utf8 "quit") then ⟨[], none⟩
  else if collected.isEmpty && line.head? = some 0x3A then
    ⟨[⟨.result, command s.color (line.drop 1)⟩], some []⟩
  else if line.isEmpty then
    let program := collected.trim
    ⟨if program.isEmpty then [] else s.run name program, some []⟩
  else
    let collected := if collected.isEmpty then line else collected ++ Text.newline :: line
    if line.trim.getLast? = some 0x3B then ⟨s.run name collected, some []⟩
    else ⟨[], some collected⟩

/-- Appends the conversation about the given lines. At the end of the input a line break follows the
last prompt. -/
def converseInto (s : Setting) (name : Text) (said : Array Output) (collected : Text) :
    List Text → Array Output
  | [] => said.push ⟨.result, prompt collected ++ [Text.newline]⟩
  | line :: more =>
    let reply := answer s name collected line
    let said := said.push ⟨.result, prompt collected⟩ ++ reply.outputs
    match reply.collected with
    | none => said
    | some collected => converseInto s name said collected more

/-- The whole conversation about an input. -/
def converse (s : Setting) (name : Text) (input : Text) : List Output :=
  (converseInto s name #[⟨.result, Ink.note.line s.color banner⟩] [] (lines input)).toList

end ExprLang.Repl
