import ExprLang.Numeral.Layout

/-! The values that programs compute. A string is not stored in its value: an object value refers to
an entry of a string table by the low half of its word. -/

namespace ExprLang

inductive ValueKind where
  | nil | bool | integer | double | object
  deriving DecidableEq, Repr, Inhabited

namespace ValueKind

/-- All kinds in the order of their codes, each with its name. -/
def named : List (ValueKind × String) :=
  [(nil, "nil"), (bool, "bool"), (integer, "integer"), (double, "double"), (object, "object")]

def name (k : ValueKind) : String :=
  (named.lookup k).getD ""

def code (k : ValueKind) : Nat :=
  (named.map Prod.fst).idxOf k

def ofCode? (n : Nat) : Option ValueKind :=
  (named.map Prod.fst)[n]?

def nameOfCode (n : Nat) : String :=
  match ofCode? n with
  | some k => k.name
  | none => "ValueKind(" ++ toString n ++ ")"

end ValueKind

/-- A value. Doubles are kept as their words, so that every NaN stays distinct. -/
inductive Value where
  | nil
  | bool (b : Bool)
  | integer (n : Int64)
  | double (word : UInt64)
  | object (word : UInt64)
  deriving DecidableEq, Repr, Inhabited

namespace Value

def kind : Value → ValueKind
  | nil => .nil
  | bool _ => .bool
  | integer _ => .integer
  | double _ => .double
  | object _ => .object

/-- The payload as one 64-bit word. -/
def word : Value → UInt64
  | nil => 0
  | bool b => if b then 1 else 0
  | integer n => n.toUInt64
  | double w => w
  | object w => w

def isNumber (v : Value) : Bool :=
  v.kind = .integer || v.kind = .double

/-- The table entry that a payload names. -/
def ref (v : Value) : UInt32 :=
  v.word.toUInt32

/-- Nil and false count as false, all else as true. -/
def countsAsFalse : Value → Bool
  | nil => true
  | bool b => !b
  | _ => false

/-- Equality of kinds and payloads, except that doubles compare as numbers. -/
def equal : Value → Value → Bool
  | double a, double b => Float.ofBits a == Float.ofBits b
  | a, b => a = b

/-- A value as text, a reference left unresolved. -/
def text : Value → Text
  | nil => utf8 "nil"
  | bool b => if b then utf8 "true" else utf8 "false"
  | integer n => Text.ofInt n.toInt
  | double w => Binary64.text w
  | object w => utf8 "<object #" ++ Text.ofNat w.toUInt32.toNat ++ utf8 ">"

end Value

end ExprLang
