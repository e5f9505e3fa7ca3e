import ExprLang.Toml.Number
import ExprLang.Unicode.Letter

/-! Reading documents. A line holds a header or an assignment, and a comment may end it. Arrays and
inline tables go over several lines. -/

namespace ExprLang.Toml

def skipBlanks (cs : Chars) : Chars :=
  cs.dropWhile isBlank

/-- Skips blank space, line breaks and comments. -/
def skipSpace (inComment : Bool) : Chars → Chars
  | [] => []
  | c :: rest =>
    if isBreak c then skipSpace false rest
    else if inComment || isBlank c then skipSpace inComment rest
    else if c = '#' then skipSpace true rest
    else c :: rest

/-- One part of a key. -/
def keyPart? (cs : Chars) : Option (Text × Chars) :=
  match cs with
  | '"' :: rest => lineString? '"' rest
  | '\'' :: rest => lineString? '\'' rest
  | _ =>
    let bare := cs.takeWhile isBareChar
    if bare.isEmpty then none else some (textOf bare, cs.drop bare.length)

/-- The parts of a key, with points between them. Fuel is the length of the text. -/
def keyInto (parts : Array Text) : Nat → Chars → Option (Key × Chars)
  | 0, _ => none
  | fuel + 1, cs =>
    match keyPart? (skipBlanks cs) with
    | none => none
    | some (part, rest) =>
      match skipBlanks rest with
      | '.' :: more => keyInto (parts.push part) fuel more
      | rest => some ((parts.push part).toList, rest)

def key? (cs : Chars) : Option (Key × Chars) :=
  keyInto #[] (cs.length + 1) cs

/-- A value that is a word. -/
def word? (cs : Chars) : Option (Value × Chars) :=
  let word := cs.takeWhile Unicode.isLetter
  let rest := cs.drop word.length
  match String.ofList word with
  | "true" => some (.bool true, rest)
  | "false" => some (.bool false, rest)
  | "inf" | "nan" => some (.float, rest)
  | _ => none

mutual

/-- A value. Each unit of fuel pays for one character. -/
def value? (fuel : Nat) (cs : Chars) : Option (Value × Chars) :=
  match fuel with
  | 0 => none
  | fuel + 1 =>
    match skipBlanks cs with
    | '[' :: rest => arrayInto fuel #[] rest
    | '\x7b' :: rest => tableInto fuel #[] rest
    | '"' :: rest => (string? '"' rest).map fun (s, rest) => (.string s, rest)
    | '\'' :: rest => (string? '\'' rest).map fun (s, rest) => (.string s, rest)
    | c :: rest =>
      if c.isDigit then numberOrMoment? (c :: rest)
      else if isSign c then signed? (c :: rest)
      else word? (c :: rest)
    | [] => none

/-- The items of an array up to its end. A comma may follow the last one. -/
def arrayInto (fuel : Nat) (items : Array Value) (cs : Chars) : Option (Value × Chars) :=
  match fuel with
  | 0 => none
  | fuel + 1 =>
    match skipSpace false cs with
    | ']' :: rest => some (.array items.toList, rest)
    | cs =>
      match value? fuel cs with
      | none => none
      | some (v, rest) =>
        match skipSpace false rest with
        | ',' :: rest => arrayInto fuel (items.push v) rest
        | ']' :: rest => some (.array (items.push v).toList, rest)
        | _ => none

/-- The entries of an inline table up to its end. -/
def tableInto (fuel : Nat) (entries : Array (Key × Value)) (cs : Chars) : Option (Value × Chars) :=
  match fuel with
  | 0 => none
  | fuel + 1 =>
    match skipSpace false cs with
    | '\x7d' :: rest => some (.table entries.toList, rest)
    | cs =>
      match key? cs with
      | some (key, '=' :: rest) =>
        match value? fuel rest with
        | none => none
        | some (v, rest) =>
          match skipSpace false rest with
          | ',' :: rest => tableInto fuel (entries.push (key, v)) rest
          | '\x7d' :: rest => some (.table (entries.push (key, v)).toList, rest)
          | _ => none
      | _ => none

end

/-- The rest of a line behind a statement: blanks and a comment. -/
def lineEnd? (cs : Chars) : Option Chars :=
  match skipBlanks cs with
  | [] => some []
  | c :: rest =>
    if isBreak c then some rest
    else if c = '#' then some (rest.dropWhile fun c => !isBreak c)
    else none

def statement? (cs : Chars) : Option (Statement × Chars) :=
  match cs with
  | '[' :: '[' :: rest =>
    match key? rest with
    | some (key, ']' :: ']' :: rest) => some (.arrayHeader key, rest)
    | _ => none
  | '[' :: rest =>
    match key? rest with
    | some (key, ']' :: rest) => some (.header key, rest)
    | _ => none
  | _ =>
    match key? cs with
    | some (key, '=' :: rest) => (value? (rest.length + 1) rest).map fun (v, rest) => (.assign key v, rest)
    | _ => none

/-- The statements of a document. Fuel is the length of the text. -/
def statementsInto (read : Array Statement) : Nat → Chars → Option (List Statement)
  | 0, _ => none
  | fuel + 1, cs =>
    match skipSpace false cs with
    | [] => some read.toList
    | cs =>
      match statement? cs with
      | none => none
      | some (s, rest) =>
        match lineEnd? rest with
        | none => none
        | some rest => statementsInto (read.push s) fuel rest

/-- A character may stand in a document unless it is a control character. Carriage returns only stand
before line feeds. -/
def legalInto : Chars → Bool
  | [] => true
  | '\r' :: rest => rest.head? = some '\n' && legalInto rest
  | c :: rest => (c = '\t' || c = '\n' || (0x20 ≤ c.toNat && c.toNat ≠ 0x7F)) && legalInto rest

/-- A text without a byte order mark at its start. -/
def dropMark : Text → Text
  | 0xEF :: 0xBB :: 0xBF :: rest => rest
  | 0xFF :: 0xFE :: rest => rest
  | 0xFE :: 0xFF :: rest => rest
  | t => t

/-- The statements of a document, if it is well formed. -/
def statements? (t : Text) : Option (List Statement) :=
  let glyphs := (dropMark t).glyphs
  let cs := glyphs.map Glyph.char
  if glyphs.all (fun g => !g.isStray) && legalInto cs then statementsInto #[] (cs.length + 1) cs
  else none

end ExprLang.Toml
