import ExprLang.Text.Quoted

/-! The tokens of the language. The kinds have a fixed order, and a kind's code is its place in it. -/

namespace ExprLang

inductive TokenKind where
  | leftParen | rightParen | leftBrace | rightBrace | comma | dot | minus | plus | semicolon
  | slash | star
  | bang | bangEqual | equal | equalEqual | greater | greaterEqual | less | lessEqual
  | identifier | string | integer | double
  | andWord | classWord | elseWord | falseWord | fnWord | forWord | ifWord | importWord | letWord
  | loopWord | moduleWord | nilWord | orWord | returnWord | superWord | thisWord | trueWord
  | whileWord
  | error | eof
  deriving DecidableEq, Repr, Inhabited

namespace TokenKind

/-- The reserved words with their kinds. -/
def words : List (TokenKind × String) := [
  (andWord, "and"), (classWord, "class"), (elseWord, "else"), (falseWord, "false"), (fnWord, "fn"),
  (forWord, "for"), (ifWord, "if"), (importWord, "import"), (letWord, "let"), (loopWord, "loop"),
  (moduleWord, "module"), (nilWord, "nil"), (orWord, "or"), (returnWord, "return"),
  (superWord, "super"), (thisWord, "this"), (trueWord, "true"), (whileWord, "while")]

/-- All kinds in the order of their codes, each with its name. -/
def named : List (TokenKind × String) := [
  (leftParen, "("), (rightParen, ")"), (leftBrace, "\x7b"), (rightBrace, "\x7d"), (comma, ","),
  (dot, "."), (minus, "-"), (plus, "+"), (semicolon, ";"), (slash, "/"), (star, "*"),
  (bang, "!"), (bangEqual, "!="), (equal, "="), (equalEqual, "=="), (greater, ">"),
  (greaterEqual, ">="), (less, "<"), (lessEqual, "<="),
  (identifier, "IDENTIFIER"), (string, "STRING"), (integer, "INTEGER"), (double, "DOUBLE")] ++
  words ++ [(error, "ERROR"), (eof, "EOF")]

def name (k : TokenKind) : String :=
  (named.lookup k).getD ""

def code (k : TokenKind) : Nat :=
  (named.map Prod.fst).idxOf k

def ofCode? (n : Int) : Option TokenKind :=
  if n < 0 then none else (named.map Prod.fst)[n.toNat]?

/-- The name that belongs to a code, or the code itself when no kind has it. -/
def nameOfCode (n : Int) : String :=
  match ofCode? n with
  | some k => k.name
  | none => "Token(" ++ toString n ++ ")"

def isReserved (k : TokenKind) : Bool :=
  (words.map Prod.fst).contains k

/-- The reserved word with a given spelling. -/
def ofWord? (t : Text) : Option TokenKind :=
  (words.find? fun w => utf8 w.2 = t).map Prod.fst

end TokenKind

/-- A token with the line on which it ends. The lexeme is the source text of the token; that of an
error token is the message instead. -/
structure Token where
  kind : TokenKind
  lexeme : Text
  line : Nat
  deriving DecidableEq, Repr, Inhabited

namespace Token

/-- How a token with a kind of this name is shown. Of a long lexeme only the first twenty bytes are. -/
def describe (name : String) (lexeme : Text) : Text :=
  if 20 < lexeme.length then
    utf8 name ++ utf8 "(" ++ Text.quoted (lexeme.take 20) ++ utf8 "...)"
  else
    utf8 name ++ utf8 "(" ++ lexeme.quoted ++ utf8 ")"

def text (t : Token) : Text :=
  match t.kind with
  | .eof => utf8 "EOF"
  | .error => utf8 "ERROR(" ++ t.lexeme ++ utf8 ")"
  | k => describe k.name t.lexeme

end Token

end ExprLang
