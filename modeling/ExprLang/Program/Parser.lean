import ExprLang.Chunk.Basic
import ExprLang.Expr.Basic
import ExprLang.Numeral.Binary64
import ExprLang.Program.Diagnostic
import ExprLang.Token.Cursor

/-! From tokens to programs by precedence climbing. A problem puts the parser into a panic, in which
further problems go unreported. It recovers at the next statement: behind a semicolon or before a
word that begins a statement. -/

namespace ExprLang

/-- A statement: an expression, and the line of the token that ended it. -/
structure Statement where
  expr : Expr
  endLine : Nat
  deriving DecidableEq, Repr

/-- A program, and the line on which it ends. -/
structure Program where
  statements : List Statement
  endLine : Nat
  deriving DecidableEq, Repr

/-- A parser between two tokens. -/
structure Parser where
  previous : Token
  current : Token
  rest : List Token
  /-- How many constants the program needs so far. -/
  pooled : Nat
  panicking : Bool
  diagnostics : Array Diagnostic

namespace Literal

/-- The literal that a token denotes. -/
def ofToken (t : Token) : Except Problem Literal :=
  match t.kind with
  | .trueWord => .ok (bool true)
  | .falseWord => .ok (bool false)
  | .integer =>
    let n := t.lexeme.toNat
    if n < 0x8000000000000000 then .ok (integer (Int64.ofNat n)) else .error .integerOutOfRange
  | .double =>
    let whole := t.lexeme.takeWhile Text.isDigit
    let fraction := t.lexeme.drop (whole.length + 1)
    match Binary64.ofRatio? (Text.toNat (whole ++ fraction)) (Nat.pow 10 fraction.length) with
    | some word => .ok (double word)
    | none => .error .doubleOutOfRange
  | .string => .ok (string (t.lexeme.drop 1).dropLast)
  | _ => .ok nil

end Literal

namespace Parser

/-- Reports a problem, unless one was reported and the parser has not recovered yet. -/
def report (p : Parser) (t : Token) (problem : Problem) : Parser :=
  if p.panicking then p
  else { p with panicking := true, diagnostics := p.diagnostics.push ⟨t, problem⟩ }

/-- Takes the first token that is no error token, and reports those before it. -/
def take (p : Parser) : List Token → Parser
  | [] => { p with rest := [] }
  | t :: rest =>
    if t.kind = .error then take (p.report t (.lexical t.lexeme)) rest
    else { p with current := t, rest := rest }

/-- Moves one token on. At the end of the program the end token stays. -/
def advance (p : Parser) : Parser :=
  take { p with previous := p.current } p.rest

def start (tokens : List Token) : Parser :=
  let none : Token := ⟨.eof, [], 0⟩
  take ⟨none, none, [], 0, false, #[]⟩ tokens

/-- Moves over a token of the given kind, or reports the problem. -/
def expect (p : Parser) (k : TokenKind) (problem : Problem) : Parser :=
  if p.current.kind = k then p.advance else p.report p.current problem

/-- The literal just passed. The constant pool has room for so many of them. -/
def literal (p : Parser) : Option Expr × Parser :=
  match Literal.ofToken p.previous with
  | .error problem => (none, p.report p.previous problem)
  | .ok l =>
    if !l.isPooled then (some (.literal l p.previous.line), p)
    else if p.pooled < Chunk.poolLimit then
      (some (.literal l p.previous.line), { p with pooled := p.pooled + 1 })
    else (none, p.report p.previous .tooManyConstants)

mutual

/-- Parses an expression whose operators bind at least as strongly as `floor`. There is none if a
problem left it without a meaning. Each unit of fuel pays for one token. -/
def expression (fuel : Nat) (floor : Precedence) (p : Parser) : Option Expr × Parser :=
  match fuel with
  | 0 => (none, p)
  | fuel + 1 =>
    let p := p.advance
    match Lead.ofKind? p.previous.kind with
    | none => (none, p.report p.previous .expectExpression)
    | some lead =>
      let (left, p) := match lead with
        | .group =>
          let (inner, p) := expression fuel .assignment p
          (inner, p.expect .rightParen .expectParen)
        | .unary op =>
          let line := p.previous.line
          let (operand, p) := expression fuel .unary p
          (operand.map (Expr.unary op line), p)
        | .literal => p.literal
      let (e, p) := climb fuel floor left p
      if floor.level ≤ Precedence.assignment.level && p.current.kind = .equal then
        let p := p.advance
        (none, p.report p.previous .invalidTarget)
      else (e, p)

/-- Goes on from a left operand as long as operators bind at least as strongly as `floor`. -/
def climb (fuel : Nat) (floor : Precedence) (left : Option Expr) (p : Parser) :
    Option Expr × Parser :=
  match fuel with
  | 0 => (left, p)
  | fuel + 1 =>
    match BinaryOp.ofKind? p.current.kind with
    | none => (left, p)
    | some op =>
      if floor.level ≤ op.precedence.level then
        let p := p.advance
        let line := p.previous.line
        let (right, p) := expression fuel op.precedence.next p
        let both := left.bind fun l => right.map fun r => Expr.binary op line l r
        climb fuel floor both p
      else (left, p)

end

/-- The words that begin declarations and control flow. The language reserves them. -/
def beginsStatement : TokenKind → Bool
  | .moduleWord | .importWord | .letWord | .ifWord | .elseWord | .fnWord | .returnWord | .loopWord
  | .whileWord | .forWord | .classWord => true
  | _ => false

/-- Parses one statement. An expression ends with a semicolon or with the program. -/
def statement (fuel : Nat) (p : Parser) : Option Statement × Parser :=
  if beginsStatement p.current.kind then
    let p := p.advance
    (none, p.report p.previous (.unsupportedStatement p.previous.lexeme))
  else
    let (e, p) := expression fuel .assignment p
    let p :=
      if p.current.kind = .semicolon then p.advance
      else if p.current.kind = .eof then p
      else p.report p.current .expectSemicolon
    (e.map fun e => ⟨e, p.previous.line⟩, p)

/-- Skips to the next statement. -/
def skip (fuel : Nat) (p : Parser) : Parser :=
  match fuel with
  | 0 => p
  | fuel + 1 =>
    if p.current.kind = .eof || p.previous.kind = .semicolon || beginsStatement p.current.kind then p
    else skip fuel p.advance

/-- Ends the panic at the next statement. Error tokens on the way there start another. -/
def recover (fuel : Nat) (p : Parser) : Parser :=
  skip fuel { p with panicking := false }

/-- Parses statements up to the end of the program. -/
def statements (fuel : Nat) (parsed : Array Statement) (p : Parser) : Array Statement × Parser :=
  match fuel with
  | 0 => (parsed, p)
  | fuel + 1 =>
    if p.current.kind = .eof then (parsed, p.advance)
    else
      let (s, p) := statement fuel p
      let p := if p.panicking then recover fuel p else p
      let parsed := match s with
        | some s => parsed.push s
        | none => parsed
      statements fuel parsed p

/-- Every statement and every operand takes a token, so that this fuel is never used up. -/
def fuelFor (tokens : List Token) : Nat :=
  tokens.length + 4

end Parser

namespace Program

/-- Parses a program, or tells what is wrong with it. -/
def parse (source : Text) : Except (List Diagnostic) Program :=
  let tokens := Token.all source
  let (statements, p) := Parser.statements (Parser.fuelFor tokens) #[] (Parser.start tokens)
  if p.diagnostics.isEmpty then .ok ⟨statements.toList, p.previous.line⟩
  else .error p.diagnostics.toList

end Program

end ExprLang
