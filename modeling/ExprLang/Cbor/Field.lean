import ExprLang.Cbor.Item

/-! Data items as the fields of a record. A field takes what converts into its type without loss;
null and undefined stand for zero or for nothing at all. -/

namespace ExprLang.Cbor

/-- An item without its tags: the item itself, or the bytes of a big number. -/
inductive Plain where
  | item (i : Item)
  | big (isNegative : Bool) (magnitude : Text)

/-- The contents that the tags for dates and for big numbers allow. -/
def admits (tag : Nat) : Item → Bool
  | .text _ => tag ≠ 1 && tag ≠ 2 && tag ≠ 3
  | .unsigned _ | .negative _ | .float => tag ≠ 0 && tag ≠ 2 && tag ≠ 3
  | .bytes _ => tag ≠ 0 && tag ≠ 1
  | _ => tag ≠ 0 && tag ≠ 1 && tag ≠ 2 && tag ≠ 3

/-- The tag that marks an item as CBOR. It says nothing about its content. -/
def selfDescribed : Nat := 55799

/-- Removes the tags of an item. -/
def plain? : Item → Option Plain
  | .tag number content =>
    if number = selfDescribed then plain? content
    else if !admits number content then none
    else
      match content with
      | .bytes magnitude =>
        if number = 2 then some (.big false magnitude)
        else if number = 3 then some (.big true magnitude)
        else plain? content
      | _ => plain? content
  | i => some (.item i)

def isNull (n : Nat) : Bool :=
  n = 22 || n = 23

/-- An integer from `low` to `high`. Simple values without a meaning of their own are integers. -/
def integer? (low high : Int) (i : Item) : Option Int :=
  let value : Option Int :=
    match plain? i with
    | some (.item (.unsigned n)) => some n
    | some (.item (.negative n)) => some (-1 - n)
    | some (.item (.simple n)) => if isNull n then some 0 else if n = 20 || n = 21 then none else some n
    | some (.big isNegative magnitude) =>
      let n : Int := Head.ofBigEndian magnitude
      some (if isNegative then -1 - n else n)
    | _ => none
  value.filter fun z => low ≤ z && z ≤ high

/-- A text, every piece of which is well-formed UTF-8. -/
def joined? (pieces : List Text) : Option Text :=
  if pieces.all Text.isUtf8 then some pieces.flatten else none

def text? (i : Item) : Option Text :=
  match plain? i with
  | some (.item (.text pieces)) => joined? pieces
  | some (.item (.simple n)) => if isNull n then some [] else none
  | _ => none

/-- The elements of an array, each converted. -/
def list? {α : Type} (element : Item → Option α) (i : Item) : Option (List α) :=
  match plain? i with
  | some (.item (.array items)) => items.mapM element
  | some (.item (.simple n)) => if isNull n then some [] else none
  | _ => none

/-- A byte string, or an array of bytes. -/
def bytes? (i : Item) : Option Text :=
  match plain? i with
  | some (.item (.bytes content)) => some content
  | some (.big _ magnitude) => some magnitude
  | _ => list? (fun b => (integer? 0 255 b).map fun z => UInt8.ofNat z.toNat) i

/-- The field that a map key names: by its number, or by the digits of it. -/
def fieldNumber? : Item → Option (Option Nat)
  | .unsigned n => some (some n)
  | .negative n => if n < 0x8000000000000000 then some none else none
  | .text pieces =>
    (joined? pieces).map fun name =>
      if name.all Text.isDigit && Text.ofNat name.toNat = name then some name.toNat else none
  | _ => none

/-- The numbered fields among the keys and values of a map. -/
def fieldsInto (found : Array (Nat × Item)) : List Item → Option (List (Nat × Item))
  | key :: value :: more =>
    match fieldNumber? key with
    | none => none
    | some none => fieldsInto found more
    | some (some n) => fieldsInto (found.push (n, value)) more
  | _ => some found.toList

/-- The fields of a record: of several values for one field the first counts. -/
def fields? (i : Item) : Option (List (Nat × Item)) :=
  match plain? i with
  | some (.item (.map items)) => fieldsInto #[] items
  | some (.item (.simple n)) => if isNull n then some [] else none
  | _ => none

/-- One field of a record, converted, or its default if it is missing. -/
def field? {α : Type} (fields : List (Nat × Item)) (number : Nat) (convert : Item → Option α)
    (missing : α) : Option α :=
  match fields.lookup number with
  | none => some missing
  | some i => convert i

end ExprLang.Cbor
