import ExprLang.Token.Basic

/-! What can be wrong with a program, and how it is told. -/

namespace ExprLang

inductive Problem where
  | lexical (message : Text)
  | unsupportedStatement (word : Text)
  | expectSemicolon
  | expectExpression
  | expectParen
  | invalidTarget
  | integerOutOfRange
  | doubleOutOfRange
  | tooManyConstants
  deriving DecidableEq, Repr

def Problem.message : Problem → Text
  | lexical message => message
  | unsupportedStatement word => utf8 "'" ++ word ++ utf8 "' statements are not supported."
  | expectSemicolon => utf8 "Expect ';' after expression."
  | expectExpression => utf8 "Expect expression."
  | expectParen => utf8 "Expect ')' after expression."
  | invalidTarget => utf8 "Invalid assignment target."
  | integerOutOfRange => utf8 "Integer literal out of range."
  | doubleOutOfRange => utf8 "Double literal out of range."
  | tooManyConstants => utf8 "Too many constants in one chunk."

/-- A problem together with the token at which it showed. -/
structure Diagnostic where
  token : Token
  problem : Problem
  deriving DecidableEq, Repr

namespace Diagnostic

def line (d : Diagnostic) : Nat :=
  d.token.line

/-- Where the problem is. The message of an error token says so itself. -/
def site (d : Diagnostic) : Text :=
  match d.token.kind with
  | .eof => utf8 " at end"
  | .error => []
  | _ => utf8 " at '" ++ d.token.lexeme ++ utf8 "'"

def message (d : Diagnostic) : Text :=
  d.problem.message

def text (d : Diagnostic) : Text :=
  utf8 "[line " ++ Text.ofNat d.line ++ utf8 "] Error" ++ d.site ++ utf8 ": " ++ d.message

/-- Several diagnostics, one on a line. -/
def joined (ds : List Diagnostic) : Text :=
  Text.join [Text.newline] (ds.map text)

end Diagnostic

end ExprLang
