import ExprLang.Text.Glyph

/-! CBOR data items, and the heads that introduce them. A head is a major type from 0 to 7 with five
bits of additional information, and the argument that these announce. -/

namespace ExprLang.Cbor

/-- A data item. A map is the list of its keys and values in turn. A text comes in the pieces in which
it was written. The simple values 20 to 23 are false, true, null and undefined. -/
inductive Item where
  | unsigned (n : Nat)
  /-- The number `-1 - n`. -/
  | negative (n : Nat)
  | bytes (content : Text)
  | text (pieces : List Text)
  | array (items : List Item)
  | map (items : List Item)
  | tag (number : Nat) (content : Item)
  | simple (n : Nat)
  | float
  deriving Repr

structure Head where
  major : Nat
  info : Nat
  argument : Nat
  deriving DecidableEq, Repr

namespace Head

/-- The additional information that stands for an indefinite length. -/
def indefinite : Nat := 31

def isIndefinite (h : Head) : Bool :=
  h.info = indefinite

/-- A number in so many bytes, most significant first. -/
def bigEndian : Nat → Nat → Text
  | 0, _ => []
  | width + 1, n => bigEndian width (n / 256) ++ [UInt8.ofNat (n % 256)]

def ofBigEndian (t : Text) : Nat :=
  t.foldl (fun n b => 256 * n + b.toNat) 0

/-- The shortest head with a given argument. -/
def write (major argument : Nat) : Text :=
  let first (info : Nat) : UInt8 := UInt8.ofNat (32 * major + info)
  if argument < 24 then [first argument]
  else if argument < UInt8.size then first 24 :: bigEndian 1 argument
  else if argument < UInt16.size then first 25 :: bigEndian 2 argument
  else if argument < UInt32.size then first 26 :: bigEndian 4 argument
  else first 27 :: bigEndian 8 argument

/-- Reads a head. Three values of the additional information are reserved. -/
def read? : Text → Option (Head × Text)
  | [] => none
  | b :: rest =>
    let major := b.toNat / 32
    let info := b.toNat % 32
    if info < 24 then some (⟨major, info, info⟩, rest)
    else if info < 28 then
      let width := 1 <<< (info - 24)
      let argument := rest.take width
      if argument.length = width then
        some (⟨major, info, ofBigEndian argument⟩, rest.drop width)
      else none
    else if info = indefinite then some (⟨major, info, 0⟩, rest)
    else none

end Head

end ExprLang.Cbor
