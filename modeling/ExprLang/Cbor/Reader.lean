import ExprLang.Cbor.Item

/-! Reading data items. Heads need not be the shortest ones and lengths may be indefinite. Long
collections and deep nesting are refused. -/

namespace ExprLang.Cbor

abbrev Reader := Text → Option (Item × Text)

/-- The most elements of an array, and the most entries of a map. -/
def maxElements : Nat := 131072

/-- How deep arrays and maps may be nested. A tag directly inside a tag counts as well. -/
def maxDepth : Nat := 32

/-- The byte that ends a collection of indefinite length. -/
def breakByte : UInt8 := 0xFF

/-- The next `n` bytes. -/
def takeBytes? (n : Nat) (t : Text) : Option (Text × Text) :=
  let taken := t.take n
  if taken.length = n then some (taken, t.drop n) else none

/-- The pieces of a string of indefinite length. They have its major type and a definite length. Fuel
is the length of the text. -/
def piecesInto (major : Nat) (read : Array Text) : Nat → Text → Option (List Text × Text)
  | 0, _ => none
  | _ + 1, [] => none
  | fuel + 1, b :: rest =>
    if b = breakByte then some (read.toList, rest)
    else
      match Head.read? (b :: rest) with
      | none => none
      | some (h, rest) =>
        if h.major = major && !h.isIndefinite then
          match takeBytes? h.argument rest with
          | none => none
          | some (piece, rest) => piecesInto major (read.push piece) fuel rest
        else none

def pieces? (h : Head) (rest : Text) : Option (List Text × Text) :=
  if h.isIndefinite then piecesInto h.major #[] (rest.length + 1) rest
  else (takeBytes? h.argument rest).map fun (piece, rest) => ([piece], rest)

/-- Reads `n` items. -/
def itemsInto (item : Reader) (read : Array Item) : Nat → Text → Option (List Item × Text)
  | 0, t => some (read.toList, t)
  | n + 1, t =>
    match item t with
    | none => none
    | some (i, rest) => itemsInto item (read.push i) n rest

/-- Reads items up to the break, less than `n` of them. -/
def itemsUntilBreak (item : Reader) (read : Array Item) : Nat → Text → Option (List Item × Text)
  | 0, _ => none
  | n + 1, t =>
    match t with
    | [] => none
    | b :: rest =>
      if b = breakByte then some (read.toList, rest)
      else
        match item (b :: rest) with
        | none => none
        | some (i, rest) => itemsUntilBreak item (read.push i) n rest

/-- The items of a collection whose elements take `width` items each. -/
def elements? (item : Reader) (width : Nat) (h : Head) (rest : Text) : Option (List Item × Text) :=
  if h.isIndefinite then
    match itemsUntilBreak item #[] (width * maxElements + 1) rest with
    | none => none
    | some (items, rest) => if items.length % width = 0 then some (items, rest) else none
  else if h.argument ≤ maxElements then itemsInto item #[] (width * h.argument) rest
  else none

/-- A simple value or a floating-point number. A simple value below 32 has a one-byte head. -/
def simple? (h : Head) : Option Item :=
  if h.info < 24 then some (.simple h.argument)
  else if h.info = 24 then (if h.argument < 32 then none else some (.simple h.argument))
  else if h.isIndefinite then none
  else some .float

/-- The item behind a head that is no tag. `inner` reads what is nested in it. -/
def body? (inner : Option Reader) (h : Head) (rest : Text) : Option (Item × Text) :=
  match h.major with
  | 0 => if h.isIndefinite then none else some (.unsigned h.argument, rest)
  | 1 => if h.isIndefinite then none else some (.negative h.argument, rest)
  | 2 => (pieces? h rest).map fun (ps, rest) => (.bytes ps.flatten, rest)
  | 3 => (pieces? h rest).map fun (ps, rest) => (.text ps, rest)
  | 4 => inner.bind fun item => (elements? item 1 h rest).map fun (is, rest) => (.array is, rest)
  | 5 => inner.bind fun item => (elements? item 2 h rest).map fun (is, rest) => (.map is, rest)
  | 7 => (simple? h).map fun i => (i, rest)
  | _ => none

/-- One item, with its tags. -/
def itemWith (inner : Option Reader) : Reader := fun t =>
  match Head.read? t with
  | none => none
  | some (h, rest) =>
    if h.major = 6 then
      if h.isIndefinite then none
      else
        match Head.read? rest with
        | none => none
        | some (h', rest') =>
          let content := if h'.major = 6 then inner.bind fun item => item rest else body? inner h' rest'
          content.map fun (i, rest) => (.tag h.argument i, rest)
    else body? inner h rest

/-- One item with so many levels of nesting to spare. -/
def item? : Nat → Reader
  | 0 => itemWith none
  | depth + 1 => itemWith (some (item? depth))

/-- The one item of which a text consists. -/
def read? (t : Text) : Option Item :=
  match item? maxDepth t with
  | some (i, []) => some i
  | _ => none

end ExprLang.Cbor
