import ExprLang.Toml.Basic

/-! The four kinds of strings. Basic strings have escapes, literal ones do not; both come on one line
or between three quotes on several. -/

namespace ExprLang.Toml

abbrev Chars := List Char

def isBlank (c : Char) : Bool :=
  c = ' ' || c = '\t'

def isBreak (c : Char) : Bool :=
  c = '\n' || c = '\r'

def hexDigit? (c : Char) : Option Nat :=
  if c.isDigit then some (c.toNat - 48)
  else if 'a' ≤ c && c ≤ 'f' then some (c.toNat - 87)
  else if 'A' ≤ c && c ≤ 'F' then some (c.toNat - 55)
  else none

/-- The character whose number is written in `width` hexadecimal digits. -/
def numbered? (width : Nat) (cs : Chars) : Option Char :=
  let digits := (cs.take width).filterMap hexDigit?
  let n := digits.foldl (fun n d => 16 * n + d) 0
  if digits.length = width && (n < 0xD800 || 0xE000 ≤ n && n < 0x110000) then some (Char.ofNat n)
  else none

/-- What the characters behind a backslash stand for, and how many of them do. A backslash at the end
of a line stands for nothing, and takes the blank space up to the next text with it. -/
def escape? (multiline : Bool) (cs : Chars) : Option (Option Char × Nat) :=
  let one (c : Char) : Option (Option Char × Nat) := some (some c, 1)
  match cs with
  | 'b' :: _ => one '\x08'
  | 't' :: _ => one '\t'
  | 'n' :: _ => one '\n'
  | 'f' :: _ => one '\x0c'
  | 'r' :: _ => one '\r'
  | 'e' :: _ => one '\x1b'
  | '"' :: _ => one '"'
  | '\\' :: _ => one '\\'
  | 'x' :: more => (numbered? 2 more).map fun c => (some c, 3)
  | 'u' :: more => (numbered? 4 more).map fun c => (some c, 5)
  | 'U' :: more => (numbered? 8 more).map fun c => (some c, 9)
  | _ =>
    let space := cs.takeWhile fun c => isBlank c || isBreak c
    if multiline && space.contains '\n' then some (none, space.length) else none

/-- Replaces the escapes of a basic string; the next `skip` characters belong to the last one. -/
def unescapeInto (multiline : Bool) (read : Array Char) (skip : Nat) : Chars → Option Chars
  | [] => some read.toList
  | c :: rest =>
    match skip with
    | n + 1 => unescapeInto multiline read n rest
    | 0 =>
      if c ≠ '\\' then unescapeInto multiline (read.push c) 0 rest
      else
        match escape? multiline rest with
        | none => none
        | some (none, used) => unescapeInto multiline read used rest
        | some (some d, used) => unescapeInto multiline (read.push d) used rest

def unescape? (multiline : Bool) (cs : Chars) : Option Chars :=
  unescapeInto multiline #[] 0 cs

/-- The text up to a closing quote on the same line. Behind a backslash no quote closes a basic
string. -/
def lineInto (quote : Char) (read : Array Char) (escaped : Bool) : Chars → Option (Chars × Chars)
  | [] => none
  | c :: rest =>
    if isBreak c then none
    else if escaped then lineInto quote (read.push c) false rest
    else if c = quote then some (read.toList, rest)
    else lineInto quote (read.push c) (quote = '"' && c = '\\') rest

/-- How many quotes may follow upon a character in a string on several lines: the closing ones, two
before them, and one more behind a backslash that is itself escaped. -/
def quoteLimit (escaped : Bool) (c : Char) : Nat :=
  if escaped && c = '\\' then 6 else 5

/-- The text up to three closing quotes. `quotes` of them have just been read, and at most `limit` may
be. -/
def blockInto (quote : Char) (read : Array Char) (escaped : Bool) (limit quotes : Nat) :
    Chars → Option (Chars × Chars)
  | [] => if 3 ≤ quotes then some (read.toList.take (read.size - 3), []) else none
  | c :: rest =>
    if c = quote && !escaped then
      if quotes = limit then none
      else blockInto quote (read.push c) false limit (quotes + 1) rest
    else if 3 ≤ quotes then some (read.toList.take (read.size - 3), c :: rest)
    else
      let opensEscape := quote = '"' && c = '\\' && !escaped
      blockInto quote (read.push c) opensEscape (quoteLimit escaped c) 0 rest

/-- A line break right behind the opening quotes is not part of the text. -/
def dropFirstBreak : Chars → Chars
  | '\n' :: rest => rest
  | '\r' :: '\n' :: rest => rest
  | cs => cs

def textOf (cs : Chars) : Text :=
  utf8 (String.ofList cs)

/-- A string on one line, behind its opening quote. -/
def lineString? (quote : Char) (cs : Chars) : Option (Text × Chars) := do
  let (body, rest) ← lineInto quote #[] false cs
  let body ← if quote = '"' then unescape? false body else some body
  return (textOf body, rest)

/-- A string on several lines, behind its three opening quotes. -/
def blockString? (quote : Char) (cs : Chars) : Option (Text × Chars) := do
  let (body, rest) ← blockInto quote #[] false (quoteLimit false quote) 0 cs
  let body := dropFirstBreak body
  let body ← if quote = '"' then unescape? true body else some body
  return (textOf body, rest)

/-- A string behind its first quote. -/
def string? (quote : Char) (cs : Chars) : Option (Text × Chars) :=
  match cs with
  | a :: b :: rest => if a = quote && b = quote then blockString? quote rest else lineString? quote cs
  | _ => lineString? quote cs

end ExprLang.Toml
