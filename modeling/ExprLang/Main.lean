import ExprLang.Command.Basic

/-! The command as a program. -/

open ExprLang

namespace ExprLang.Main

def toText (bytes : ByteArray) : Text :=
  bytes.data.toList

def toBytes (t : Text) : ByteArray :=
  ⟨t.toArray⟩

def toName (t : Text) : String :=
  (String.fromUTF8? (toBytes t)).getD ""

def ofError : IO.Error → FileFault
  | .noFileOrDirectory _ _ _ => .notFound
  | .inappropriateType _ _ _ => .isDirectory
  | e => .other (utf8 (toString e))

/-- The files of the machine that the command runs on. -/
def disk : Disk IO where
  present path := do
    try
      discard <| IO.FS.Handle.mk (toName path) .read
      return true
    catch _ => return false
  read path := do
    try
      return .ok (toText (← IO.FS.readBinFile (toName path)))
    catch e => return .error (ofError e)
  append path := do
    try
      discard <| IO.FS.Handle.mk (toName path) .append
      return .ok ()
    catch e => return .error (ofError e)

/-- A random name for a run: 32 hexadecimal digits in five groups. -/
def freshName : IO Text := do
  let digits := Text.hexBytes (toText (← IO.getRandomBytes 16))
  let group (start length : Nat) : Text := (digits.drop start).take length
  return Text.join (utf8 "-") [group 0 8, group 8 4, group 12 4, group 16 4, group 20 12]

def say (outputs : List Output) : IO Unit := do
  for o in outputs do
    let stream ← if Command.isStandard o.channel then IO.getStdout else IO.getStderr
    stream.write (toBytes o.text)
    stream.flush

/-- The next line, or nothing at the end of the input. -/
partial def readLine (input : IO.FS.Stream) (line : Array UInt8) : IO (Option Text) := do
  match toText (← input.read 1) with
  | [] => return if line.isEmpty || Repl.maxLine ≤ line.size then none else some (Repl.dropReturn line)
  | b :: _ =>
    if Repl.maxLine ≤ line.size then return none
    else if b = Text.newline then return some (Repl.dropReturn line)
    else readLine input (line.push b)

/-- The interactive loop, one line at a time. -/
partial def converse (s : Repl.Setting) (collected : Text) : IO Unit := do
  say [⟨.result, Repl.prompt collected⟩]
  match ← readLine (← IO.getStdin) #[] with
  | none => say [⟨.result, [Text.newline]⟩]
  | some line =>
    let reply := Repl.answer s (← freshName) collected line
    say reply.outputs
    match reply.collected with
    | none => return
    | some collected => converse s collected

end ExprLang.Main

open ExprLang.Main in
def main (args : List String) : IO UInt32 := do
  let color ← (← IO.getStdout).isTty
  let current := utf8 (toString (← IO.currentDir))
  match ← Command.plan disk color current (args.map utf8) with
  | .converse config =>
    let setting : Repl.Setting := ⟨config, color⟩
    say [⟨.result, Ink.note.line color Repl.banner⟩]
    converse setting []
    return 0
  | action =>
    let (code, outputs) := action.perform color (← freshName) []
    say outputs
    return UInt32.ofNat code
